import Vesper.Chat.Pages
import Vesper.Chat.PlaintextCache
import Vesper.Server.Sequence

/-!
# Search

The search of a chat: `useSearch` fetches the whole history of the conversation page by page, decrypts it, and
looks through it on the client, while the server goes on. What it has put together is kept for as long as the
client runs, if nothing in it looks encrypted.
-/

namespace Vesper.Chat.Search
open Server

/-! ## The hook -/

/-- A text in braces, or a long one without a blank. -/
def looksEncrypted (s : Text) : Bool :=
  let t := trim s
  s ≠ [] && (t.head? = some 0x7B && t.getLast? = some 0x7D || 15 < t.length && 0x20 ∉ t)

/-- `decrypt` and `decryptFromGroup` of `useE2E`; `none` where they throw. -/
structure Decryption where
  decrypt : Text → UserId → Option Text
  decryptFromGroup : Text → ConversationId → UserId → Option Text

/-- What a fetch has put together, the oldest message first; no step reads `since`, the server when it answered the
first page. -/
structure Collected where
  all : List MessageView
  since : View

/-- A fetch under way, for a query; the answer to its last request is still to come, or is to be decrypted. -/
structure Fetch where
  conversationId : ConversationId
  peerUserId : Option UserId
  query : Text
  collected : Collected
  cursor : Option MessageId
  answer : Option (Except HttpError Response)

/-- The query that the results are for, and what they were taken from. -/
structure Shown where
  conversationId : ConversationId
  query : Text
  collected : Collected

/-- The state of `useSearch` and its `sessionCache`. The fetch is the one that is not aborted: those that are write
nothing any more. No step reads `shown`. -/
structure Panel where
  chat : Option (ConversationId × Option UserId)
  isOpen : Bool
  query : Text
  timer : Bool
  fetch : Option Fetch
  results : List MessageView
  shown : Option Shown
  sessionCache : ConversationId → Option Collected

namespace Fetch
variable (f : Fetch)

def decryptOne (e2e : Decryption) (msg : MessageView) : MessageView :=
  if !looksEncrypted msg.rest.content then msg
  else
    let plain := match f.peerUserId.filter (· ≠ 0) with
      | some peerUserId => e2e.decrypt msg.rest.content peerUserId
      | none => e2e.decryptFromGroup msg.rest.content f.conversationId msg.rest.senderId
    match plain with
    | some plain => if plain = cannotDecrypt then msg else { msg with rest := { msg.rest with content := plain } }
    | none => msg

/-- `/conversations/${convId}/messages?cursor=${cursor}` -/
def request : Route := .getMessages f.conversationId f.cursor none none

/-- `all.unshift(...decrypted); cursor = data[0].id` -/
def unshift (e2e : Decryption) (data : List MessageView) : Fetch :=
  { f with
    collected := { f.collected with all := data.map (f.decryptOne e2e) ++ f.collected.all }
    cursor := data.head?.map (·.rest.id)
    answer := none }

end Fetch

/-- The results of a query; `lower` is `toLowerCase`. -/
def found (lower : Text → Text) (query : Text) (all : List MessageView) : List MessageView :=
  all.filter fun m => m.rest.deletedAt.isNone && lower (trim query) <:+: lower m.rest.content

namespace Panel
variable (lower : Text → Text) (p : Panel)

def start : Panel where
  chat := none
  isOpen := false
  query := []
  timer := false
  fetch := none
  results := []
  shown := none
  sessionCache := fun _ => none

def setResults (shown : Option Shown) : Panel :=
  { p with shown, results := shown.elim [] fun s => found lower s.query s.collected.all }

/-- The effect that every change of the query, of the chat and of `isOpen` runs. -/
def effect : Panel :=
  let p := { p with fetch := none, timer := false }
  if !p.isOpen || p.chat.isNone || (trim p.query).length < 2 then p.setResults lower none
  else { p with timer := true }

def close : Panel :=
  { p with fetch := none, timer := false, isOpen := false, query := [] }.setResults lower none

def setQuery (query : Text) : Panel := if query = p.query then p else { p with query }.effect lower

def setIsOpen (isOpen : Bool) : Panel := if isOpen = p.isOpen then p else { p with isOpen }.effect lower

/-- The search is over once the chat is another one. -/
def setChat (chat : Option (ConversationId × Option UserId)) : Panel :=
  if chat = p.chat then p
  else if p.chat.isSome && p.chat.map (·.1) ≠ chat.map (·.1) then { p.close lower with chat }
  else { p with chat }.effect lower

/-- What is done with what `fetchAllDecrypted` returns. -/
def conclude (f : Fetch) : Panel :=
  { p with
    fetch := none
    sessionCache :=
      if f.collected.all.any (looksEncrypted ·.rest.content) then p.sessionCache
      else Function.update p.sessionCache f.conversationId f.collected }.setResults lower
    (some ⟨f.conversationId, f.query, f.collected⟩)

/-- The timer of the effect. -/
def elapse (now : View) : Panel :=
  let p := { p with timer := false }.setResults lower none
  match p.chat with
  | none => p
  | some (conversationId, peerUserId) =>
    match p.sessionCache conversationId with
    | some cached => p.setResults lower (some ⟨conversationId, p.query, cached⟩)
    | none => { p with fetch := some ⟨conversationId, peerUserId, p.query, ⟨[], now⟩, none, none⟩ }

/-- The server answers the request of the fetch. -/
def answer (g : Gateway) (env : Environment) (now : Time) (u : UserId) : Panel :=
  { p with fetch := p.fetch.map fun f =>
    { f with
      answer := some (g.answer env now u f.request)
      collected := if f.cursor = none then { f.collected with since := ⟨g.db, now⟩ } else f.collected } }

/-- The request has failed. -/
def fail : Panel := { p with fetch := none }.setResults lower none

/-- The answer has come, and what it lists is decrypted. -/
def load (e2e : Decryption) (f : Fetch) : Except HttpError Response → Panel
  | .error _ => p.fail lower
  | .ok response =>
    let data := response.views
    if data = [] then p.conclude lower f
    else if data.length < 30 then p.conclude lower (f.unshift e2e data)
    else { p with fetch := some (f.unshift e2e data) }

end Panel

/-! ## Runs -/

inductive SearchEvent
  | server (now : Time) (input : Input)
  | setChat (chat : Option (ConversationId × Option UserId))
  | setQuery (query : Text)
  | setIsOpen (isOpen : Bool)
  | close
  | elapse
  | answer (now : Time)
  | fail
  | load (e2e : Decryption)

/-- The server, its clock, and the search. -/
structure World where
  server : Gateway
  clock : Time
  panel : Panel

namespace World
variable (env : Environment) (lower : Text → Text) (u : UserId) (s : World)

/-- The server as it is. -/
def view : View := ⟨s.server.db, s.clock⟩

def Enabled : SearchEvent → Prop
  | .server now input => s.clock ≤ now ∧ s.server.Enabled now input
  | .elapse => s.panel.timer
  | .answer now => s.clock ≤ now ∧ ∃ f ∈ s.panel.fetch, f.answer.isNone
  | .fail => ∃ f ∈ s.panel.fetch, f.answer.isNone
  | .load _ => ∃ f ∈ s.panel.fetch, f.answer.isSome
  | _ => True

def next : SearchEvent → World
  | .server now input => { s with server := s.server.next env (now, input), clock := now }
  | .setChat chat => { s with panel := s.panel.setChat lower chat }
  | .setQuery query => { s with panel := s.panel.setQuery lower query }
  | .setIsOpen isOpen => { s with panel := s.panel.setIsOpen lower isOpen }
  | .close => { s with panel := s.panel.close lower }
  | .elapse => { s with panel := s.panel.elapse lower s.view }
  | .answer now => { s with clock := now, panel := s.panel.answer s.server env now u }
  | .fail => { s with panel := s.panel.fail lower }
  | .load e2e =>
    match s.panel.fetch with
    | some f => { s with panel := f.answer.elim s.panel (s.panel.load lower e2e f) }
    | none => s

end World

instance (s : World) : ∀ e, Decidable (s.Enabled e)
  | .server _ _ => inferInstanceAs (Decidable (_ ∧ _))
  | .answer _ => inferInstanceAs (Decidable (_ ∧ ∃ f ∈ s.panel.fetch, f.answer.isNone = true))
  | .fail => inferInstanceAs (Decidable (∃ f ∈ s.panel.fetch, f.answer.isNone = true))
  | .load _ => inferInstanceAs (Decidable (∃ f ∈ s.panel.fetch, f.answer.isSome = true))
  | .elapse => inferInstanceAs (Decidable (_ = true))
  | .setChat _ | .setQuery _ | .setIsOpen _ | .close => .isTrue trivial

/-- A user who searches, while everybody writes. -/
def searching (env : Environment) (users : List User) (devices : List Device) (lower : Text → Text) (u : UserId)
    (clock : Time) : Machine World SearchEvent where
  init := ⟨.start users devices, clock, .start⟩
  enabled := World.Enabled
  next := World.next env lower u

instance (env : Environment) (users : List User) (devices : List Device) (lower : Text → Text) (u : UserId)
    (clock : Time) (s : World) (e : SearchEvent) :
    Decidable ((searching env users devices lower u clock).enabled s e) :=
  inferInstanceAs (Decidable (s.Enabled e))

/-! ## Pages of a history that goes on -/

/-- The later view has all messages of the earlier one, and no earlier a clock. -/
structure Precedes (v v' : View) : Prop where
  now : v.now ≤ v'.now
  messages : ∀ m ∈ v.db.messages, ∃ m' ∈ v'.db.messages, m.Follows m'

/-- The user is shown the message in the conversation, cleared or not. -/
def Shows (v : View) (u : UserId) (c : ConversationId) (id : MessageId) : Prop :=
  ∃ m ∈ v.db.messages, m.id = id ∧ m.conversationId = c ∧ scheduledFilter v.now u m

section
variable {v v' v'' since : View} {u : UserId} {c : ConversationId} {id : MessageId}

theorem Precedes.refl (v : View) : Precedes v v := ⟨le_rfl, fun m hm => ⟨m, hm, .refl m⟩⟩

theorem Precedes.trans (h : Precedes v v') (h' : Precedes v' v'') : Precedes v v'' := by
  refine ⟨h.now.trans h'.now, fun m hm => ?_⟩
  obtain ⟨m', hm', hfollows⟩ := h.messages m hm
  obtain ⟨m'', hm'', hfollows'⟩ := h'.messages m' hm'
  exact ⟨m'', hm'', hfollows.trans hfollows'⟩

/-- What was shown stays so: times of scheduled messages that have come do not go. -/
theorem Precedes.shows (h : Precedes v v') (hid : Shows v u c id) : Shows v' u c id := by
  obtain ⟨m, hm, rfl, rfl, hfilter⟩ := hid
  obtain ⟨m', hm', hfollows⟩ := h.messages m hm
  refine ⟨m', hm', hfollows.id, congrArg Posting.conversationId hfollows.1, ?_⟩
  have hscheduled : m'.scheduledAt = m.scheduledAt := congrArg Posting.scheduledAt hfollows.1
  have hsender : m'.senderId = m.senderId := congrArg Posting.senderId hfollows.1
  rw [scheduledFilter, Bool.or_eq_true] at hfilter ⊢
  rw [hscheduled, hsender]
  refine hfilter.imp_left fun hdue => ?_
  rw [Option.all_eq_true] at hdue ⊢
  exact fun time htime => decide_eq_true ((of_decide_eq_true (hdue time htime)).trans h.now)

theorem shows_of_visible (h : id ∈ v.visible u c) : Shows v u c id := by
  obtain ⟨m, hm, ⟨hc, -, hfilter⟩, rfl⟩ := mem_visible.mp h
  exact ⟨m, hm, rfl, hc, hfilter⟩

/-- A page of messages before the cursor, that leaves out none of those that were visible to begin with, as far as
it goes. -/
structure Answers (u : UserId) (c : ConversationId) (since v : View) (cursor : Option MessageId)
    (ids : List MessageId) : Prop where
  ascending : ids.Pairwise (· < ·)
  before : ∀ k ∈ cursor, ∀ x ∈ ids, x < k
  shown : ∀ x ∈ ids, Shows v u c x
  closed : ∀ id ∈ since.visible u c, (∀ k ∈ cursor, id < k) → (ids.length < 30 ∨ ∃ x ∈ ids, x ≤ id) → id ∈ ids

theorem Answers.mono {cursor : Option MessageId} {ids : List MessageId} (h : Answers u c since v cursor ids)
    (hv : Precedes v v') : Answers u c since v' cursor ids :=
  { h with shown := fun x hx => hv.shows (h.shown x hx) }

theorem shows_page {kind : LoadKind} : ∀ x ∈ (v.page u c kind).map (·.id), Shows v u c x := by
  have hpage : ∃ cursor after around,
      v.page u c kind = v.db.page v.now u c (v.clearedAt u c) cursor after around := by
    cases kind with
    | initial => exact ⟨none, none, none, rfl⟩
    | more cursor => exact ⟨cursor, none, none, rfl⟩
    | newer after => exact ⟨none, after, none, rfl⟩
    | around messageId => exact ⟨none, none, some messageId, rfl⟩
    | latest => exact ⟨none, none, none, rfl⟩
  obtain ⟨cursor, after, around, hpage⟩ := hpage
  intro x hx
  obtain ⟨m, hm, rfl⟩ := List.mem_map.mp hx
  rw [hpage] at hm
  obtain ⟨hm, hc, hfilter⟩ := mem_page hm
  exact ⟨m, hm, rfl, hc, hfilter⟩

theorem answers_first (hv : v.Sound) : Answers u c v v none ((v.page u c .initial).map (·.id)) := by
  obtain ⟨hascending, -, hclosed⟩ := last_page (newest_sorted hv.keyed fun m =>
    (decide (m.conversationId = c) && scheduledFilter v.now u m) && notCleared (v.clearedAt u c) m)
  refine ⟨hascending, fun k hk => (by cases hk), shows_page, fun id hid _ hor => ?_⟩
  obtain ⟨m, hm, ⟨hc, hcleared, hfilter⟩, rfl⟩ := mem_visible.mp hid
  refine hclosed m (mem_newest.mpr ⟨hm, ?_⟩) hor
  simp only [hc, hcleared, hfilter, decide_true, Bool.and_self]

/-- An older page is taken below a message that is still there, whatever has been posted or cleared meanwhile. -/
theorem answers_more (hv : v.Sound) (hsince : Precedes since v) {k : MessageId} (hk : Shows v u c k) :
    Answers u c since v (some k) ((v.page u c (.more (some k))).map (·.id)) := by
  obtain ⟨first, hfirst, rfl, hc, hfilter⟩ := hk
  let q : Server.Message → Bool := fun m =>
    (decide (m.conversationId = c) && scheduledFilter v.now u m) && decide (m.id ≤ first.id)
  have hpage : v.page u c (.more (some first.id)) = (((v.db.newest q).drop 1).take 30).reverse := by
    have hsome : (v.db.message? first.id).isSome := by
      rw [hv.keyed.message? hfirst]
      rfl
    simp only [View.page, Database.page, Option.filter_some, decide_eq_true (hv.positive first hfirst), if_true,
      Database.pageAfter, if_pos hsome, q]
  have hsorted := newest_sorted hv.keyed q
  obtain ⟨hascending, hmem, hclosed⟩ := last_page (hsorted.sublist (List.drop_sublist 1 _))
  rw [hpage]
  refine ⟨hascending, ?_, hpage ▸ shows_page, fun id hid hbefore hor => ?_⟩
  · intro k hk x hx
    cases hk
    obtain ⟨m, hm, rfl⟩ := hmem x hx
    obtain ⟨m', hm', hlt⟩ := lt_of_mem_drop_one hsorted hm
    have hle := (mem_newest.mp hm').2
    simp only [q, Bool.and_eq_true, decide_eq_true_eq] at hle
    exact hlt.trans_le hle.2
  · obtain ⟨m, hm, rfl, hc', hfilter'⟩ := hsince.shows (shows_of_visible hid)
    have hlt : m.id < first.id := hbefore _ rfl
    refine hclosed m (mem_drop_one hsorted (mem_newest.mpr ⟨hm, ?_⟩) (mem_newest.mpr ⟨hfirst, ?_⟩) hlt) hor
    · simp only [q, hc', hfilter', hlt.le, decide_true, Bool.and_self]
    · simp only [q, hc, hfilter, le_refl, decide_true, Bool.and_self]

/-- What an answer lists is the page. -/
theorem ids_answer {g : Gateway} {env : Environment} {now : Time} {cursor : Option MessageId} {response : Response}
    (h : g.answer env now u (.getMessages c cursor none none) = .ok response) :
    response.views.map (·.rest.id) = ((⟨g.db, now⟩ : View).page u c (.more cursor)).map (·.id) := by
  rw [Gateway.answer, respond_getMessages] at h
  cases hmember : g.db.member? c u with
  | none =>
    rw [hmember] at h
    cases h
  | some member =>
    rw [hmember] at h
    cases h
    rw [views_answerPage, Database.history, List.map_map, View.page]
    dsimp only
    rw [View.clearedAt, hmember]
    rfl

end

/-! ## What a fetch has put together -/

abbrev ids (all : List MessageView) : List MessageId := all.map (·.rest.id)

section
variable {v v' : View} {u : UserId} {c : ConversationId} {f : Fetch} {e2e : Decryption} {response : Response}

/-- The list is a history of the conversation, and nothing is missing that the user could see when it was begun. -/
structure Collected.Complete (u : UserId) (c : ConversationId) (v : View) (x : Collected) : Prop where
  since : Precedes x.since v
  ascending : (ids x.all).Pairwise (· < ·)
  shown : ∀ id ∈ ids x.all, Shows v u c id
  covers : ∀ id ∈ x.since.visible u c, id ∈ ids x.all

/-- The list covers what could be seen, down to the cursor. -/
structure Fetch.Sound (u : UserId) (v : View) (f : Fetch) : Prop where
  since : Precedes f.collected.since v
  cursor : f.cursor = (ids f.collected.all).head?
  ascending : (ids f.collected.all).Pairwise (· < ·)
  shown : ∀ id ∈ ids f.collected.all, Shows v u f.conversationId id
  covers : ∀ id ∈ f.collected.since.visible u f.conversationId, (∃ k ∈ f.cursor, k ≤ id) → id ∈ ids f.collected.all
  answer : ∀ response, f.answer = some (.ok response) →
    Answers u f.conversationId f.collected.since v f.cursor (ids response.views)

theorem Collected.Complete.mono {x : Collected} (h : x.Complete u c v) (hv : Precedes v v') : x.Complete u c v' :=
  { h with since := h.since.trans hv, shown := fun id hid => hv.shows (h.shown id hid) }

theorem Fetch.Sound.mono (h : f.Sound u v) (hv : Precedes v v') : f.Sound u v' :=
  { h with
    since := h.since.trans hv
    shown := fun id hid => hv.shows (h.shown id hid)
    answer := fun response hresponse => (h.answer response hresponse).mono hv }

/-- The first of an ascending list is the least. -/
theorem head_le {l : List MessageId} (hl : l.Pairwise (· < ·)) {k id : MessageId} (hk : l.head? = some k)
    (hid : id ∈ l) : k ≤ id := by
  obtain ⟨rest, rfl⟩ := List.head?_eq_some_iff.mp hk
  rcases List.mem_cons.mp hid with rfl | hid
  · exact le_rfl
  · exact ((List.pairwise_cons.mp hl).1 id hid).le

/-- The cursor is below all that was put together. -/
theorem Fetch.Sound.cursor_of_mem (h : f.Sound u v) {id : MessageId} (hid : id ∈ ids f.collected.all) :
    ∃ k ∈ f.cursor, k ≤ id := by
  obtain ⟨k, rest, hall⟩ := List.exists_cons_of_ne_nil (List.ne_nil_of_mem hid)
  have hk : (ids f.collected.all).head? = some k := by
    rw [hall]
    rfl
  exact ⟨k, h.cursor.trans hk, head_le h.ascending hk hid⟩

/-- A fetch that has reached the beginning. -/
theorem Fetch.Sound.complete (h : f.Sound u v)
    (hend : ∀ id ∈ f.collected.since.visible u f.conversationId, ∃ k ∈ f.cursor, k ≤ id) :
    f.collected.Complete u f.conversationId v :=
  ⟨h.since, h.ascending, h.shown, fun id hid => h.covers id hid (hend id hid)⟩

theorem id_decryptOne {msg : MessageView} : (f.decryptOne e2e msg).rest.id = msg.rest.id := by
  rw [Fetch.decryptOne]
  split
  · rfl
  dsimp only
  split
  · split <;> rfl
  · rfl

theorem ids_unshift {data : List MessageView} :
    ids (f.unshift e2e data).collected.all = ids data ++ ids f.collected.all := by
  have hdata : (data.map (f.decryptOne e2e)).map (·.rest.id) = data.map (·.rest.id) := by
    rw [List.map_map]
    exact List.map_congr_left fun _ _ => id_decryptOne
  change (data.map (f.decryptOne e2e) ++ f.collected.all).map (·.rest.id) = _
  rw [List.map_append, hdata]

/-- What could be seen is in the page, or above it. -/
theorem Fetch.Sound.before_or (h : f.Sound u v) (hanswer : f.answer = some (.ok response)) {id : MessageId}
    (hid : id ∈ f.collected.since.visible u f.conversationId)
    (hor : (ids response.views).length < 30 ∨ ∃ x ∈ ids response.views, x ≤ id) :
    id ∈ ids response.views ∨ id ∈ ids f.collected.all := by
  by_cases hbefore : ∀ k ∈ f.cursor, id < k
  · exact .inl ((h.answer response hanswer).closed id hid hbefore hor)
  · push Not at hbefore
    exact .inr (h.covers id hid hbefore)

/-- **One page**: the page that has come is put before the others. -/
theorem Fetch.Sound.unshift (h : f.Sound u v) (hanswer : f.answer = some (.ok response))
    (hdata : response.views ≠ []) (e2e : Decryption) : (f.unshift e2e response.views).Sound u v := by
  have hpage := h.answer response hanswer
  have hbelow : ∀ x ∈ ids response.views, ∀ id ∈ ids f.collected.all, x < id := by
    intro x hx id hid
    obtain ⟨k, hk, hle⟩ := h.cursor_of_mem hid
    exact (hpage.before k hk x hx).trans_le hle
  have hids : ids (f.unshift e2e response.views).collected.all = ids response.views ++ ids f.collected.all :=
    ids_unshift
  have hcursor : (f.unshift e2e response.views).cursor = (ids response.views).head? := (List.head?_map ..).symm
  refine ⟨h.since, ?_, ?_, ?_, ?_, fun _ hnone => (by cases hnone)⟩
  · have hne : ids response.views ≠ [] := fun hnil => hdata (List.map_eq_nil_iff.mp hnil)
    rw [hcursor, hids, List.head?_append_of_ne_nil _ hne]
  · rw [hids]
    exact List.pairwise_append.mpr ⟨hpage.ascending, h.ascending, hbelow⟩
  · intro id hid
    rw [hids] at hid
    exact (List.mem_append.mp hid).elim (hpage.shown id) (h.shown id)
  · rintro id hid ⟨k, hk, hle⟩
    have hmem : k ∈ ids response.views := List.mem_of_head? (hcursor.symm.trans hk)
    rw [hids]
    exact List.mem_append.mpr (h.before_or hanswer hid (.inr ⟨k, hmem, hle⟩))

/-- After a short page nothing is left. -/
theorem Fetch.Sound.last (h : f.Sound u v) (hanswer : f.answer = some (.ok response))
    (hshort : response.views.length < 30) (e2e : Decryption) (hdata : response.views ≠ []) :
    (f.unshift e2e response.views).collected.Complete u f.conversationId v := by
  have hsound := h.unshift hanswer hdata e2e
  refine hsound.complete fun id hid => hsound.cursor_of_mem ?_
  rw [ids_unshift]
  refine List.mem_append.mpr (h.before_or hanswer hid (.inl ?_))
  rwa [List.length_map]

/-- After an empty page nothing is left. -/
theorem Fetch.Sound.exhausted (h : f.Sound u v) (hanswer : f.answer = some (.ok response))
    (hdata : response.views = []) : f.collected.Complete u f.conversationId v := by
  refine h.complete fun id hid => h.cursor_of_mem ?_
  have hnone : ids response.views = [] := List.map_eq_nil_iff.mpr hdata
  refine (h.before_or hanswer hid (.inl ?_)).resolve_left ?_
  · rw [hnone]
    decide
  · rw [hnone]
    exact List.not_mem_nil

/-- A list has no more messages than there are. -/
theorem Fetch.Sound.length_le (h : f.Sound u v) : f.collected.all.length ≤ v.db.messages.length := by
  have hsub : ids f.collected.all ⊆ v.db.messages.map (·.id) := fun id hid => by
    obtain ⟨m, hm, rfl, -, -⟩ := h.shown id hid
    exact List.mem_map_of_mem hm
  have hnodup : (ids f.collected.all).Nodup := h.ascending.imp fun hlt => hlt.ne
  have hle := (List.subperm_of_subset hnodup hsub).length_le
  rwa [List.length_map, List.length_map] at hle

end

/-! ## The search -/

section
variable {lower : Text → Text} {v v' : View} {u : UserId} {p : Panel} {f : Fetch} {e2e : Decryption}
  {response : Response}

/-- What the panel fetches, keeps and shows is put together from whole pages. -/
structure Panel.Sound (lower : Text → Text) (u : UserId) (v : View) (p : Panel) : Prop where
  fetch : ∀ f ∈ p.fetch, f.Sound u v
  cached : ∀ c x, p.sessionCache c = some x →
    x.Complete u c v ∧ ∀ m ∈ x.all, looksEncrypted m.rest.content = false
  shown : ∀ s ∈ p.shown, s.collected.Complete u s.conversationId v
  results : p.results = p.shown.elim [] fun s => found lower s.query s.collected.all

theorem Panel.Sound.mono (h : p.Sound lower u v) (hv : Precedes v v') : p.Sound lower u v' where
  fetch := fun f hf => (h.fetch f hf).mono hv
  cached := fun c x hx => ⟨(h.cached c x hx).1.mono hv, (h.cached c x hx).2⟩
  shown := fun s hs => (h.shown s hs).mono hv
  results := h.results

theorem Panel.Sound.setResults (h : p.Sound lower u v) {shown : Option Shown}
    (hshown : ∀ s ∈ shown, s.collected.Complete u s.conversationId v) : (p.setResults lower shown).Sound lower u v :=
  { h with shown := hshown, results := rfl }

theorem Panel.Sound.noResults (h : p.Sound lower u v) : (p.setResults lower none).Sound lower u v :=
  h.setResults fun s hs => (by cases hs)

/-- The fetch is aborted, whatever the user has changed. -/
theorem Panel.Sound.abort (h : p.Sound lower u v) {q : Panel} (hq : q = { p with
    chat := q.chat, isOpen := q.isOpen, query := q.query, timer := q.timer, fetch := none }) : q.Sound lower u v := by
  rw [hq]
  exact { h with fetch := fun f hf => (by cases hf) }

theorem Panel.Sound.effect (h : p.Sound lower u v) : (p.effect lower).Sound lower u v := by
  rw [Panel.effect]
  dsimp only
  split
  · exact (h.abort rfl).noResults
  · exact h.abort rfl

theorem Panel.Sound.close (h : p.Sound lower u v) : (p.close lower).Sound lower u v :=
  (h.abort rfl).noResults

theorem Panel.Sound.setChat (h : p.Sound lower u v) (chat : Option (ConversationId × Option UserId)) :
    (p.setChat lower chat).Sound lower u v := by
  rw [Panel.setChat]
  split
  · exact h
  split
  · exact { h.close with }
  · exact Panel.Sound.effect { h with }

theorem Panel.Sound.setQuery (h : p.Sound lower u v) (query : Text) : (p.setQuery lower query).Sound lower u v := by
  rw [Panel.setQuery]
  split
  · exact h
  · exact Panel.Sound.effect { h with }

theorem Panel.Sound.setIsOpen (h : p.Sound lower u v) (isOpen : Bool) :
    (p.setIsOpen lower isOpen).Sound lower u v := by
  rw [Panel.setIsOpen]
  split
  · exact h
  · exact Panel.Sound.effect { h with }

theorem Panel.Sound.fail (h : p.Sound lower u v) : (p.fail lower).Sound lower u v :=
  (h.abort rfl).noResults

/-- A list in which nothing looks encrypted may be kept. -/
theorem Panel.Sound.keep (h : p.Sound lower u v) (hf : f.collected.Complete u f.conversationId v)
    (hplain : ∀ m ∈ f.collected.all, looksEncrypted m.rest.content = false) : Panel.Sound lower u v { p with
      sessionCache := Function.update p.sessionCache f.conversationId f.collected } := by
  refine { h with cached := fun c x hx => ?_ }
  dsimp only at hx
  by_cases hc : c = f.conversationId
  · subst hc
    rw [Function.update_self] at hx
    obtain rfl := Option.some.inj hx
    exact ⟨hf, hplain⟩
  · rw [Function.update_of_ne hc] at hx
    exact h.cached c x hx

/-- What a fetch has come to is shown, and kept if nothing in it looks encrypted. -/
theorem Panel.Sound.conclude (h : p.Sound lower u v) (hf : f.collected.Complete u f.conversationId v) :
    (p.conclude lower f).Sound lower u v := by
  have hidle : Panel.Sound lower u v { p with fetch := none } := h.abort rfl
  have hshown : ∀ s ∈ some (⟨f.conversationId, f.query, f.collected⟩ : Shown),
      s.collected.Complete u s.conversationId v := by
    intro s hs
    cases hs
    exact hf
  rw [Panel.conclude]
  split
  · exact hidle.setResults hshown
  · rename_i hplain
    refine (hidle.keep hf fun m hm => ?_).setResults hshown
    exact Bool.eq_false_iff.mpr fun hlooks => hplain (List.any_eq_true.mpr ⟨m, hm, hlooks⟩)

theorem Panel.Sound.elapse (h : p.Sound lower u v) : (p.elapse lower v).Sound lower u v := by
  have hidle : Panel.Sound lower u v { p with timer := false } := { h with }
  have hempty := hidle.noResults
  rw [Panel.elapse]
  split
  · exact hempty
  split
  · rename_i cached hcached
    refine hempty.setResults fun s hs => ?_
    cases hs
    exact (h.cached _ cached hcached).1
  · refine { hempty with fetch := fun f hf => ?_ }
    cases hf
    refine ⟨.refl v, rfl, .nil, fun id hid => (by cases hid), ?_, fun response hresponse => (by cases hresponse)⟩
    rintro id - ⟨k, hk, -⟩
    cases hk

/-- The server answers, with what it has by then. -/
theorem Fetch.Sound.answer_at {g : Gateway} {env : Environment} {now : Time} (h : f.Sound u ⟨g.db, now⟩)
    (hg : View.Sound ⟨g.db, now⟩) : Fetch.Sound u ⟨g.db, now⟩ { f with
      answer := some (g.answer env now u f.request)
      collected := if f.cursor = none then { f.collected with since := ⟨g.db, now⟩ } else f.collected } := by
  cases hcursor : f.cursor with
  | none =>
    have hall : ids f.collected.all = [] := List.head?_eq_none_iff.mp (h.cursor.symm.trans hcursor)
    rw [if_pos rfl]
    refine ⟨.refl _, hcursor ▸ h.cursor, h.ascending, h.shown, ?_, fun response hresponse => ?_⟩
    · rintro id - ⟨k, hk, -⟩
      cases hk
    · have hlisted : g.answer env now u f.request = .ok response := Option.some.inj hresponse
      rw [Fetch.request, hcursor] at hlisted
      rw [ids, ids_answer hlisted]
      exact answers_first hg
  | some k =>
    have hk : k ∈ ids f.collected.all := List.mem_of_head? (h.cursor.symm.trans hcursor)
    rw [if_neg (Option.some_ne_none k)]
    refine ⟨h.since, hcursor ▸ h.cursor, h.ascending, h.shown, hcursor ▸ h.covers, fun response hresponse => ?_⟩
    have hlisted : g.answer env now u f.request = .ok response := Option.some.inj hresponse
    rw [Fetch.request, hcursor] at hlisted
    rw [ids, ids_answer hlisted]
    exact answers_more hg h.since (h.shown k hk)

theorem Panel.Sound.answer {g : Gateway} {env : Environment} {now : Time} (h : p.Sound lower u ⟨g.db, now⟩)
    (hg : View.Sound ⟨g.db, now⟩) : (p.answer g env now u).Sound lower u ⟨g.db, now⟩ := by
  refine { h with fetch := fun f' hf' => ?_ }
  obtain ⟨f, hf, rfl⟩ := Option.map_eq_some_iff.mp hf'
  exact (h.fetch f hf).answer_at hg

theorem Panel.Sound.load (h : p.Sound lower u v) (hf : f.Sound u v) (e2e : Decryption)
    {answer : Except HttpError Response} (hanswer : f.answer = some answer) :
    (p.load lower e2e f answer).Sound lower u v := by
  cases answer with
  | error e => exact h.fail
  | ok response =>
    rw [Panel.load]
    split
    · rename_i hdata
      exact h.conclude (hf.exhausted hanswer hdata)
    rename_i hdata
    split
    · rename_i hshort
      exact h.conclude (hf.last hanswer hshort e2e hdata)
    · refine { h with fetch := fun f' hf' => ?_ }
      cases hf'
      exact hf.unshift hanswer hdata e2e

end

/-! ## Runs -/

section
variable {env : Environment} {users : List User} {devices : List Device} {lower : Text → Text} {u : UserId}
  {clock : Time} {s : World} {e : SearchEvent}

/-- What every step keeps. -/
structure World.Sound (lower : Text → Text) (u : UserId) (s : World) : Prop where
  keyed : s.server.db.Keyed
  ledger : s.server.db.ledger.Sound
  positive : s.server.db.Positive
  panel : s.panel.Sound lower u s.view

theorem World.Sound.view_sound (h : s.Sound lower u) {now : Time} : View.Sound ⟨s.server.db, now⟩ :=
  ⟨h.keyed, h.positive.messages⟩

theorem World.Sound.next (h : s.Sound lower u) (he : s.Enabled e) : (s.next env lower u e).Sound lower u := by
  cases e with
  | server now input =>
    refine ⟨next_keyed h.keyed, next_sound h.keyed h.ledger he.2, ?_, ?_⟩
    · exact next_positive env h.keyed h.ledger he.2 h.positive
    · exact h.panel.mono ⟨he.1, (next_authored env h.keyed h.ledger he.2).1⟩
  | setChat chat => exact ⟨h.keyed, h.ledger, h.positive, h.panel.setChat chat⟩
  | setQuery query => exact ⟨h.keyed, h.ledger, h.positive, h.panel.setQuery query⟩
  | setIsOpen isOpen => exact ⟨h.keyed, h.ledger, h.positive, h.panel.setIsOpen isOpen⟩
  | close => exact ⟨h.keyed, h.ledger, h.positive, h.panel.close⟩
  | elapse => exact ⟨h.keyed, h.ledger, h.positive, h.panel.elapse⟩
  | answer now =>
    refine ⟨h.keyed, h.ledger, h.positive, ?_⟩
    have hlater : Precedes s.view ⟨s.server.db, now⟩ := ⟨he.1, (Precedes.refl s.view).messages⟩
    exact (h.panel.mono hlater).answer h.view_sound
  | fail => exact ⟨h.keyed, h.ledger, h.positive, h.panel.fail⟩
  | load e2e =>
    obtain ⟨f, hf, hanswer⟩ := he
    obtain ⟨answer, hanswer⟩ := Option.isSome_iff_exists.mp hanswer
    rw [World.next, hf]
    dsimp only
    rw [hanswer]
    exact ⟨h.keyed, h.ledger, h.positive, h.panel.load (h.panel.fetch f hf) e2e hanswer⟩

theorem sound_start : ((searching env users devices lower u clock).init).Sound lower u where
  keyed := start_sound.1
  ledger := start_sound.2
  positive := ⟨Nat.one_ne_zero, fun _ h => (by cases h)⟩
  panel := ⟨fun _ h => (by cases h), fun _ _ h => (by cases h), fun _ h => (by cases h), rfl⟩

theorem sound_exec {run : List SearchEvent}
    (hrun : (searching env users devices lower u clock).Allowed (searching env users devices lower u clock).init run) :
    ((searching env users devices lower u clock).exec (searching env users devices lower u clock).init run).Sound
      lower u :=
  hrun.invariant (I := World.Sound lower u) (fun _ _ hs he => hs.next he) sound_start

/-- A page that is not the last has thirty messages. -/
theorem load_progress {e2e : Decryption} {f f' : Fetch} (hf : s.panel.fetch = some f)
    (hf' : (s.next env lower u (.load e2e)).panel.fetch = some f') {response : Response}
    (hanswer : f.answer = some (.ok response)) : f.collected.all.length + 30 ≤ f'.collected.all.length := by
  rw [World.next, hf] at hf'
  dsimp only at hf'
  rw [hanswer, Option.elim_some, Panel.load] at hf'
  split at hf'
  · cases hf'
  split at hf'
  · cases hf'
  · rename_i hlong
    obtain rfl := Option.some.inj hf'
    rw [Fetch.unshift, List.length_append, List.length_map]
    omega

/-- Two messages of user 2, the second while user 1 searches. -/
def searchRun : List SearchEvent := [
  .server 0 (.call 1 (.createDirect 2)), .server 1 (.connect 20 2 []),
  .server 2 (.event 20 (.sendMessage (Server.sampleMessage 1))), .setChat (some (1, some 2)), .setIsOpen true,
  .setQuery [0x76, 0x33], .elapse, .answer 3, .server 4 (.event 20 (.sendMessage (Server.sampleMessage 1))),
  .load ⟨fun _ _ => none, fun _ _ _ => none⟩]

end

end Vesper.Chat.Search
