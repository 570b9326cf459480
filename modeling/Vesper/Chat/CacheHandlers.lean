import Vesper.Chat.PlaintextCache

/-!
# Handlers and the cache

What the server does, and each step of a handler of the socket, keeps the cache coherent.
-/

namespace Vesper.Chat
open Server (UserId DeviceId MessageId Text Time MessageKeyEnvelope trim)

namespace Transcript
variable {s t : Transcript} {decryption : Text → Text} {currentUserId : UserId} {id : MessageId} {text : Text}

/-- What the client does leaves the server as it is. -/
theorem Good.keep (h : s.Good decryption currentUserId) (hrows : t.rows = s.rows)
    (hinbox : ∀ e ∈ t.inbox, e ∈ s.inbox ∨ ∀ msg ∈ msgOf e, s.Known msg) (hlatest : Latest s.rows t.inbox)
    (hcache : ∀ id, ∀ text ∈ t.cache id, text ∈ s.cache id ∨ s.Current decryption id text)
    (hstays : ∀ id text, s.cache id = some text → t.cache id = some text)
    (hwrites : ∀ w ∈ t.writes, w ∈ s.writes ∨ s.Current decryption w.1 w.2)
    (hhandlers : ∀ handler ∈ t.handlers, handler ∈ s.handlers ∨ s.HandlerSound handler)
    (hslots : ∀ slot ∈ t.slots, slot ∈ s.slots ∨ s.SlotSound decryption slot)
    (hmessages : ∀ m ∈ t.messages, ∀ id ∈ m.id, s.OwnEdited currentUserId id → t.Settled id →
      m ∈ s.messages ∧ s.Settled id ∨ s.Current decryption id m.content) : t.Good decryption currentUserId := by
  have hcurrent : ∀ id text, s.Current decryption id text → t.Current decryption id text := fun id text hc => by
    rw [Current, hrows]
    exact hc
  have hknown : ∀ msg, s.Known msg → t.Known msg := fun msg hk => by
    rw [Known, hrows]
    exact hk
  refine ⟨⟨fun e he msg hmsg => ?_, hrows ▸ hlatest, fun handler hh => ?_, fun w hw => ?_, fun slot hslot => ?_⟩,
    fun id text htext => ?_, fun m hm id hid hown hsettled => ?_⟩
  · exact hknown msg ((hinbox e he).elim (fun he => h.1.inbox e he msg hmsg) fun hnew => hnew msg hmsg)
  · have hsound : s.HandlerSound handler := (hhandlers handler hh).elim (h.1.handlers handler) fun hnew => hnew
    cases handler with
    | placing => exact ⟨hknown _ hsound.1, hsound.2⟩
    | editing => trivial
    | _ => exact hknown _ hsound
  · exact hcurrent _ _ ((hwrites w hw).elim (h.1.writes w) fun hnew => hnew)
  · have hsound : s.SlotSound decryption slot := (hslots slot hslot).elim (h.1.slots slot) fun hnew => hnew
    exact ⟨hknown _ hsound.known, fun text htext id hid => hcurrent _ _ (hsound.saving text htext id hid),
      fun text htext id hid => hstays id text (hsound.found text htext id hid), hsound.plain⟩
  · exact hcurrent _ _ ((hcache id text htext).elim (h.2.cached id text) fun hnew => hnew)
  · have hown' : s.OwnEdited currentUserId id := by
      rw [OwnEdited, hrows] at hown
      exact hown
    refine hcurrent _ _ ((hmessages m hm id hid hown' hsettled).elim (fun hold => ?_) fun hnew => hnew)
    exact h.2.edited m hold.1 id hid hown' hold.2

/-- What the server does, and announces. -/
theorem Good.server (h : s.Good decryption currentUserId) (rows : MessageId → Option Row) {e : Emitted}
    (hknown : ∀ id, ∀ row ∈ s.rows id, ∃ row' ∈ rows id, row'.senderId = row.senderId)
    (hmsg : ∀ msg ∈ msgOf e, ∃ id ∈ msg.id, ∃ row ∈ rows id, row.senderId = msg.senderId)
    (hlatest : Latest rows (s.inbox ++ [e]))
    (hcurrent : ∀ id text, s.Current decryption id text →
      s.Uncached id ∨ ∃ row ∈ rows id, text = plaintextOf decryption row.content)
    (hown : ∀ id, (∃ row ∈ rows id, row.senderId = currentUserId ∧ row.editedAt.isSome) →
      e.edits = some id ∨ s.OwnEdited currentUserId id ∧ rows id = s.rows id) :
    (({ s with rows } : Transcript).emit e).Good decryption currentUserId := by
  have hkeeps : ∀ msg, s.Known msg → (({ s with rows } : Transcript).emit e).Known msg := by
    rintro msg ⟨id, hid, row, hrow, hsender⟩
    obtain ⟨row', hrow', hsender'⟩ := hknown id row hrow
    exact ⟨id, hid, row', hrow', hsender'.trans hsender⟩
  refine ⟨⟨fun e' he' msg hmem => ?_, hlatest, fun handler hh => ?_, fun w hw => ?_, fun slot hslot => ?_⟩,
    fun id text htext => ?_, fun m hm id hid hedited hsettled => ?_⟩
  · rcases List.mem_append.mp he' with he' | he'
    · exact hkeeps msg (h.1.inbox e' he' msg hmem)
    · cases List.mem_singleton.mp he'
      exact hmsg msg hmem
  · have hsound := h.1.handlers handler hh
    cases handler with
    | placing => exact ⟨hkeeps _ hsound.1, hsound.2⟩
    | editing => trivial
    | _ => exact hkeeps _ hsound
  · exact (hcurrent w.1 w.2 (h.1.writes w hw)).resolve_left fun hnone => hnone.writes w hw rfl
  · obtain ⟨hin, hsaving, hfound, hplain⟩ := h.1.slots slot hslot
    refine ⟨hkeeps _ hin, fun text htext id hid => ?_, hfound, hplain⟩
    refine (hcurrent id text (hsaving text htext id hid)).resolve_left fun hnone => ?_
    cases htext.symm.trans (hnone.slots slot hslot hid)
  · refine (hcurrent id text (h.2.cached id text htext)).resolve_left fun hnone => ?_
    cases htext.symm.trans hnone.cache
  · have hnot : e.edits ≠ some id := hsettled.inbox e (List.mem_append_right _ (.head _))
    obtain ⟨hedited', hsame⟩ := (hown id hedited).resolve_left hnot
    have hsettled' : s.Settled id :=
      ⟨hsettled.requests, fun e' he' => hsettled.inbox e' (List.mem_append_left _ he'), hsettled.handlers⟩
    obtain ⟨row, hrow, htext⟩ := h.2.edited m hm id hid hedited' hsettled'
    exact ⟨row, hsame.trans hrow, htext⟩

theorem latest_append {rows rows' : MessageId → Option Row} {es : List Emitted} {e : Emitted} (h : Latest rows es)
    (hrows : ∀ id, ∀ row ∈ rows id, row ∈ rows' id) (he : e.edits = none) : Latest rows' (es ++ [e]) := by
  induction es with
  | nil =>
    refine ⟨fun id content editedAt heq => ?_, trivial⟩
    subst heq
    cases he
  | cons e' es ih =>
    refine ⟨fun id content editedAt heq => ?_, ih h.2⟩
    rcases h.1 id content editedAt heq with ⟨later, hlater, hedits⟩ | ⟨row, hrow, hcontent⟩
    · exact .inl ⟨later, List.mem_append_left _ hlater, hedits⟩
    · exact .inr ⟨row, hrows id row hrow, hcontent⟩

theorem latest_append_edit {rows rows' : MessageId → Option Row} {es : List Emitted} {row : Row}
    {editedAt : Option Time} (h : Latest rows es) (hrows : ∀ id' ≠ id, rows' id' = rows id') (hrow : rows' id = some row) :
    Latest rows' (es ++ [.messageEdited id row.content editedAt]) := by
  induction es with
  | nil =>
    refine ⟨fun id' content editedAt' heq => ?_, trivial⟩
    cases heq
    exact .inr ⟨row, hrow, rfl⟩
  | cons e' es ih =>
    refine ⟨fun id' content editedAt' heq => ?_, ih h.2⟩
    by_cases hid : id' = id
    · exact .inl ⟨_, List.mem_append_right _ (.head _), congrArg some hid.symm⟩
    · rcases h.1 id' content editedAt' heq with ⟨later, hlater, hedits⟩ | ⟨row', hrow', hcontent⟩
      · exact .inl ⟨later, List.mem_append_left _ hlater, hedits⟩
      · exact .inr ⟨row', (hrows id' hid).trans hrow', hcontent⟩

theorem good_post {row : Row} {isScheduled : Bool} (h : s.Good decryption currentUserId)
    (he : s.Enabled decryption (.post id row isScheduled)) :
    (s.step currentUserId (.post id row isScheduled)).Good decryption currentUserId := by
  obtain ⟨hnew, hunedited⟩ := he
  have hrows : ∀ id', ∀ row' ∈ s.rows id', row' ∈ Function.update s.rows id (some row) id' := by
    intro id' row' hrow'
    have hne : id' ≠ id := by
      rintro rfl
      cases hrow'.symm.trans hnew
    rw [Function.update_of_ne hne]
    exact hrow'
  have hedits : (if isScheduled then Emitted.messageScheduled (row.message id) else .onMessage (row.message id)).edits = none := by
    split <;> rfl
  refine h.server _ (fun id' row' hrow' => ⟨row', hrows id' row' hrow', rfl⟩) (fun msg hmsg => ?_)
    (latest_append h.1.latest hrows hedits) (fun id' text ⟨row', hrow', htext⟩ => .inr ⟨row', hrows id' row' hrow', htext⟩)
    fun id' hown => .inr ?_
  · have hmsg' : row.message id = msg := by
      cases isScheduled <;> exact Option.some.inj hmsg
    subst hmsg'
    exact ⟨id, rfl, row, Function.update_self .., rfl⟩
  · by_cases hid : id' = id
    · subst hid
      obtain ⟨row', hrow', -, hedited⟩ := hown
      rw [Function.update_self] at hrow'
      cases hrow'
      rw [hunedited] at hedited
      cases hedited
    · rw [Function.update_of_ne hid] at hown ⊢
      exact ⟨hown, rfl⟩

theorem good_announce (h : s.Good decryption currentUserId) :
    (s.step currentUserId (.announce id)).Good decryption currentUserId := by
  rw [step]
  cases hrow : s.rows id with
  | none => exact h
  | some row =>
    refine h.server s.rows (fun id' row' hrow' => ⟨row', hrow', rfl⟩) (fun msg hmsg => ?_)
      (latest_append h.1.latest (fun _ _ hrow' => hrow') rfl) (fun id' text hcurrent => .inr hcurrent)
      fun id' hown => .inr ⟨hown, rfl⟩
    cases hmsg
    exact ⟨id, rfl, row, hrow, rfl⟩

theorem good_edit {content : Text} {now : Time} (h : s.Good decryption currentUserId)
    (hcan : s.CanEdit decryption id content) : (s.edit id content now).Good decryption currentUserId := by
  rw [edit]
  cases hrow : s.rows id with
  | none => exact h
  | some row =>
    dsimp only
    generalize hupdated : (if trim content = row.content then row
      else { row with content := trim content, editedAt := some now }) = updated
    have hcontent : updated.content = trim content := by
      rw [← hupdated]
      split
      · exact Eq.symm ‹_›
      · rfl
    have hsender : updated.senderId = row.senderId := by
      rw [← hupdated]
      split <;> rfl
    have hself : Function.update s.rows id (some updated) id = some updated := Function.update_self ..
    have hothers : ∀ id' ≠ id, Function.update s.rows id (some updated) id' = s.rows id' := fun id' hne =>
      Function.update_of_ne hne ..
    refine h.server _ (fun id' row' hrow' => ?_) (fun msg hmsg => by cases hmsg)
      (latest_append_edit h.1.latest hothers hself) (fun id' text hcurrent => ?_) fun id' hown => ?_
    · by_cases hid : id' = id
      · subst hid
        cases hrow'.symm.trans hrow
        exact ⟨updated, hself, hsender⟩
      · exact ⟨row', (hothers id' hid).trans hrow', rfl⟩
    · by_cases hid : id' = id
      · subst hid
        obtain ⟨row', hrow', rfl⟩ := hcurrent
        cases hrow'.symm.trans hrow
        refine (hcan row hrow).symm.imp_right fun hsame => ⟨updated, hself, ?_⟩
        rw [hcontent, hsame]
      · rw [hothers id' hid]
        exact .inr hcurrent
    · by_cases hid : id' = id
      · exact .inl (congrArg some hid.symm)
      · rw [hothers id' hid] at hown ⊢
        exact .inr ⟨hown, rfl⟩

/-- A request is answered, unless that leaves an edited message as it is shown. -/
theorem Good.dropRequest {j : Nat} {r : MessageId × Text} (h : s.Good decryption currentUserId)
    (hr : s.requests[j]? = some r)
    (hnot : ¬({ s with requests := s.requests.eraseIdx j } : Transcript).Awaited currentUserId r.1) :
    ({ s with requests := s.requests.eraseIdx j } : Transcript).Good decryption currentUserId := by
  refine h.keep rfl (fun e he => .inl he) h.1.latest (fun id text htext => .inl htext) (fun id text htext => htext)
    (fun w hw => .inl hw) (fun handler hh => .inl hh) (fun slot hslot => .inl hslot) fun m hm id hid hown hsettled => ?_
  refine .inl ⟨hm, fun r' hr' heq => ?_, hsettled.inbox, hsettled.handlers⟩
  rcases eq_or_mem_eraseIdx hr hr' with rfl | hr'
  · subst heq
    exact hnot ⟨hown, hsettled, m, hm, hid⟩
  · exact hsettled.requests r' hr' heq

theorem good_acceptEdit {j : Nat} {now : Time} (h : s.Good decryption currentUserId)
    (ht : s.Consistent decryption currentUserId (.acceptEdit j now)) :
    (s.step currentUserId (.acceptEdit j now)).Good decryption currentUserId := by
  rw [step]
  cases hr : s.requests[j]? with
  | none => exact h
  | some r =>
    have hgood : (s.edit r.1 r.2 now).Good decryption currentUserId := good_edit h (ht r hr)
    rw [Option.elim_some]
    unfold edit at hgood ⊢
    cases hrow : s.rows r.1 with
    | none =>
      rw [hrow] at hgood
      refine hgood.dropRequest hr fun hawaited => ?_
      obtain ⟨row, hrow', -⟩ := hawaited.1
      cases hrow'.symm.trans hrow
    | some row =>
      rw [hrow] at hgood
      refine hgood.dropRequest hr fun hawaited => ?_
      exact hawaited.2.1.inbox _ (List.mem_append_right _ (.head _)) rfl

theorem good_rejectEdit {j : Nat} (h : s.Good decryption currentUserId)
    (ht : s.Consistent decryption currentUserId (.rejectEdit j)) :
    (s.step currentUserId (.rejectEdit j)).Good decryption currentUserId := by
  cases hr : s.requests[j]? with
  | none =>
    rw [step, List.eraseIdx_of_length_le (List.getElem?_eq_none_iff.mp hr)]
    exact h
  | some r => exact h.dropRequest hr (ht r hr)

/-! ## What the handlers are made of -/

theorem Good.suspend {handler : Handler} (h : s.Good decryption currentUserId) (hh : s.HandlerSound handler) :
    (s.suspend handler).Good decryption currentUserId := by
  refine h.keep rfl (fun e he => .inl he) h.1.latest (fun id text htext => .inl htext) (fun id text htext => htext)
    (fun w hw => .inl hw) (fun handler' hh' => ?_) (fun slot hslot => .inl hslot) fun m hm id hid hown hsettled => ?_
  · refine (List.mem_append.mp hh').imp_right fun hnew => ?_
    rw [List.mem_singleton.mp hnew]
    exact hh
  · exact .inl ⟨hm, hsettled.requests, hsettled.inbox, fun handler' hh' =>
      hsettled.handlers handler' (List.mem_append_left _ hh')⟩

theorem Good.settle {j : Nat} {old handler : Handler} (h : s.Good decryption currentUserId)
    (hold : s.handlers[j]? = some old) (hedits : old.edits = none) (hh : s.HandlerSound handler) :
    (s.settle j handler).Good decryption currentUserId := by
  refine h.keep rfl (fun e he => .inl he) h.1.latest (fun id text htext => .inl htext) (fun id text htext => htext)
    (fun w hw => .inl hw) (fun handler' hh' => ?_) (fun slot hslot => .inl hslot) fun m hm id hid hown hsettled => ?_
  · refine (List.mem_or_eq_of_mem_set hh').imp_right fun hnew => ?_
    rw [hnew]
    exact hh
  · refine .inl ⟨hm, hsettled.requests, hsettled.inbox, fun handler' hh' heq => ?_⟩
    rcases eq_or_mem_set handler hold hh' with rfl | hh'
    · cases hedits.symm.trans heq
    · exact hsettled.handlers handler' hh' heq

theorem Good.savePlaintext {id? : Option MessageId} (h : s.Good decryption currentUserId)
    (hcurrent : ∀ id ∈ id?, s.Current decryption id text) : (s.savePlaintext id? text).Good decryption currentUserId := by
  refine h.keep rfl (fun e he => .inl he) h.1.latest (fun id text htext => .inl htext) (fun id text htext => htext)
    (fun w hw => ?_) (fun handler hh => .inl hh) (fun slot hslot => .inl hslot) fun m hm id hid hown hsettled => ?_
  · refine (List.mem_append.mp hw).imp_right fun hnew => ?_
    obtain ⟨id, hid, rfl⟩ := List.mem_map.mp hnew
    exact hcurrent id (Option.mem_toList.mp hid)
  · exact .inl ⟨hm, hsettled.requests, hsettled.inbox, hsettled.handlers⟩

theorem Good.choose {msg : Message} (h : s.Good decryption currentUserId)
    (hcurrent : text ≠ msg.content → ∀ id ∈ msg.id, s.Current decryption id text) :
    (s.choose msg text).Good decryption currentUserId := by
  rw [Transcript.choose]
  split
  · exact h.savePlaintext (hcurrent ‹_›)
  · exact h

theorem handlers_choose {msg : Message} : (s.choose msg text).handlers = s.handlers := by
  rw [Transcript.choose]
  split <;> rfl

theorem rows_choose {msg : Message} : (s.choose msg text).rows = s.rows := by
  rw [Transcript.choose]
  split <;> rfl

theorem current_of_unedited {msg : Message} (hknown : s.Known msg) (hunedited : s.Unedited decryption msg) :
    ∀ id ∈ msg.id, s.Current decryption id (plaintextOf decryption msg.content) := by
  obtain ⟨id, hid, row, hrow, -⟩ := hknown
  intro id' hid'
  cases hid.symm.trans hid'
  exact ⟨row, hrow, hunedited id hid row hrow⟩

theorem plaintextOf_of_not {content : Text} (h : looksEncrypted content = false) :
    plaintextOf decryption content = content := by
  rw [plaintextOf, h]
  rfl

theorem mem_editIn {content : Text} {editedAt : Option Time} {messages : List Message} {m : Message}
    (h : m ∈ editIn id content editedAt messages) :
    m ∈ messages ∧ m.id ≠ some id ∨ (∃ m' ∈ messages, m'.id = some id) ∧ m.id = some id ∧ m.content = content := by
  obtain ⟨m', hm', rfl⟩ := List.mem_map.mp h
  by_cases hid : m'.id = some id
  · rw [if_pos hid]
    exact .inr ⟨⟨m', hm', hid⟩, hid, rfl⟩
  · rw [if_neg hid]
    exact .inl ⟨hm', hid⟩

/-! ## The socket -/

theorem Good.rest {e : Emitted} {rest : List Emitted} (h : s.Good decryption currentUserId) (hinbox : s.inbox = e :: rest)
    (hnot : ∀ id, e.edits = some id → ¬({ s with inbox := rest } : Transcript).Awaited currentUserId id) :
    ({ s with inbox := rest } : Transcript).Good decryption currentUserId := by
  have hlatest : Latest s.rows (e :: rest) := hinbox ▸ h.1.latest
  refine h.keep rfl (fun e he => .inl (hinbox ▸ .tail _ he)) hlatest.2 (fun id text htext => .inl htext)
    (fun id text htext => htext) (fun w hw => .inl hw) (fun handler hh => .inl hh) (fun slot hslot => .inl hslot)
    fun m hm id hid hown hsettled => .inl ⟨hm, hsettled.requests, fun e' he' heq => ?_, hsettled.handlers⟩
  rw [hinbox] at he'
  rcases List.mem_cons.mp he' with rfl | he'
  · exact hnot id heq ⟨hown, hsettled, m, hm, hid⟩
  · exact hsettled.inbox e' he' heq

theorem good_onMessage {msg : Message} (h : s.Good decryption currentUserId) (hknown : s.Known msg)
    (ht : msg.senderId = currentUserId → ∀ optMsg ∈ pendingMessage currentUserId msg.content s.messagesRef,
      optMsg.content = msg.content ∨ optMsg.content = plaintextOf decryption msg.content ∧ s.Unedited decryption msg) :
    (s.onMessage currentUserId msg).Good decryption currentUserId := by
  rw [onMessage]
  split
  · rename_i hown
    split
    · rename_i optMsg hopt
      have hchosen : (s.choose msg optMsg.content).Good decryption currentUserId := h.choose fun hne => by
        obtain ⟨hplain, hunedited⟩ := (ht hown optMsg hopt).resolve_left hne
        rw [hplain]
        exact current_of_unedited hknown hunedited
      refine hchosen.suspend ⟨?_, rfl⟩
      rw [Known, rows_choose]
      exact hknown
    · exact h.suspend hknown
  · split
    · exact h.suspend hknown
    · split
      · exact h.suspend ⟨hknown, rfl⟩
      · split
        · exact h.suspend hknown
        · exact h.suspend ⟨hknown, rfl⟩

theorem good_onEdited {content : Text} {editedAt : Option Time} {rest : List Emitted}
    (h : s.Good decryption currentUserId) (hinbox : s.inbox = .messageEdited id content editedAt :: rest)
    (ht : ({ s with inbox := rest } : Transcript).Awaited currentUserId id → ∃ m ∈ s.messagesRef, m.id = some id) :
    (({ s with inbox := rest } : Transcript).onEdited id content editedAt).Good decryption currentUserId := by
  have hlatest : Latest s.rows (.messageEdited id content editedAt :: rest) := hinbox ▸ h.1.latest
  have hunsettled : ∀ id', id' ≠ id → ∀ e ∈ s.inbox, e.edits = some id' → ∃ e' ∈ rest, e'.edits = some id' := by
    intro id' hne e he hedits
    rw [hinbox] at he
    rcases List.mem_cons.mp he with rfl | he
    · exact absurd (Option.some.inj hedits).symm hne
    · exact ⟨e, he, hedits⟩
  rw [onEdited]
  split
  · split
    · refine h.keep rfl (fun e he => .inl (hinbox ▸ .tail _ he)) hlatest.2 (fun id text htext => .inl htext)
        (fun id text htext => htext) (fun w hw => .inl hw) (fun handler hh => ?_) (fun slot hslot => .inl hslot)
        fun m hm id' hid' hown hsettled => .inl ⟨hm, hsettled.requests, fun e he hedits => ?_, fun handler hh =>
          hsettled.handlers handler (List.mem_append_left _ hh)⟩
      · refine (List.mem_append.mp hh).imp_right fun hnew => ?_
        rw [List.mem_singleton.mp hnew]
        trivial
      · have hne : id' ≠ id := by
          rintro rfl
          exact hsettled.handlers _ (List.mem_append_right _ (.head _)) rfl
        obtain ⟨e', he', hedits'⟩ := hunsettled id' hne e he hedits
        exact hsettled.inbox e' he' hedits'
    · rename_i hplain
      refine h.keep rfl (fun e he => .inl (hinbox ▸ .tail _ he)) hlatest.2 (fun id text htext => .inl htext)
        (fun id text htext => htext) (fun w hw => .inl hw) (fun handler hh => .inl hh) (fun slot hslot => .inl hslot)
        fun m hm id' hid' hown hsettled => ?_
      rcases mem_editIn hm with ⟨hm, hne⟩ | ⟨-, hid, hcontent⟩
      · refine .inl ⟨hm, hsettled.requests, fun e he hedits => ?_, hsettled.handlers⟩
        obtain ⟨e', he', hedits'⟩ := hunsettled id' (fun heq => hne (heq ▸ hid')) e he hedits
        exact hsettled.inbox e' he' hedits'
      · cases hid.symm.trans hid'
        rcases hlatest.1 id content editedAt rfl with ⟨e', he', hedits'⟩ | ⟨row, hrow, hrowcontent⟩
        · exact absurd hedits' (hsettled.inbox e' he')
        · refine .inr ⟨row, hrow, ?_⟩
          rw [hcontent, hrowcontent, plaintextOf_of_not (Bool.eq_false_iff.mpr hplain)]
  · rename_i hmissing
    refine h.rest hinbox fun id' hid' hawaited => hmissing ?_
    cases hid'
    obtain ⟨m, hm, hid⟩ := ht hawaited
    exact List.any_eq_true.mpr ⟨m, hm, decide_eq_true hid⟩

theorem good_deliver (h : s.Good decryption currentUserId) (ht : s.Consistent decryption currentUserId .deliver) :
    (s.step currentUserId .deliver).Good decryption currentUserId := by
  cases hinbox : s.inbox with
  | nil =>
    rw [step, hinbox]
    exact h
  | cons e rest =>
    rw [step, hinbox]
    rw [Consistent, hinbox] at ht
    replace ht := ht e rfl
    have hknown : ∀ msg ∈ msgOf e, s.Known msg := h.1.inbox e (hinbox ▸ .head _)
    cases e with
    | onMessage msg => exact good_onMessage (h.rest hinbox nofun) (hknown msg rfl) ht
    | messageScheduled msg =>
      have hrest := h.rest hinbox nofun
      dsimp only [on]
      split
      · exact hrest.suspend (hknown msg rfl)
      · exact hrest.suspend ⟨hknown msg rfl, rfl⟩
    | messageEdited id content editedAt => exact good_onEdited h hinbox ht

/-! ## The handlers -/

theorem good_loadPlaintext {j : Nat} (h : s.Good decryption currentUserId) :
    (s.step currentUserId (.loadPlaintext j)).Good decryption currentUserId := by
  rw [step]
  split
  · rename_i msg hh
    have hknown : s.Known msg := h.1.handlers _ (List.mem_of_getElem? hh)
    split
    · rename_i cached hcached
      obtain ⟨id, hid, hcached⟩ := Option.bind_eq_some_iff.mp hcached
      have hchosen : (s.choose msg cached).Good decryption currentUserId := h.choose fun _ id' hid' => by
        cases hid.symm.trans hid'
        exact h.2.cached id cached hcached
      refine hchosen.settle (by rw [handlers_choose]; exact hh) rfl ⟨?_, rfl⟩
      rw [Known, rows_choose]
      exact hknown
    · split
      · exact h.settle hh rfl hknown
      · exact h.settle hh rfl ⟨hknown, rfl⟩
  · exact h

theorem Good.dropHandler {j : Nat} {old : Handler} (h : s.Good decryption currentUserId)
    (hold : s.handlers[j]? = some old) (hedits : old.edits = none) :
    ({ s with handlers := s.handlers.eraseIdx j } : Transcript).Good decryption currentUserId := by
  refine h.keep rfl (fun e he => .inl he) h.1.latest (fun id text htext => .inl htext) (fun id text htext => htext)
    (fun w hw => .inl hw) (fun handler hh => .inl (List.mem_of_mem_eraseIdx hh)) (fun slot hslot => .inl hslot)
    fun m hm id hid hown hsettled => .inl ⟨hm, hsettled.requests, hsettled.inbox, fun handler hh heq => ?_⟩
  rcases eq_or_mem_eraseIdx hold hh with rfl | hh
  · cases hedits.symm.trans heq
  · exact hsettled.handlers handler hh heq

theorem good_editing {j : Nat} {content : Text} {editedAt : Option Time} {plain : Option Text}
    (h : s.Good decryption currentUserId) (hh : s.handlers[j]? = some (.editing id content editedAt))
    (ht : ({ s with handlers := s.handlers.eraseIdx j } : Transcript).Awaited currentUserId id →
      plain = some (plaintextOf decryption content) ∧ ∀ row ∈ s.rows id, row.content = content) :
    (s.resume j plain (.editing id content editedAt)).Good decryption currentUserId := by
  refine h.keep rfl (fun e he => .inl he) h.1.latest (fun id text htext => .inl htext) (fun id text htext => htext)
    (fun w hw => .inl hw) (fun handler hh => .inl (List.mem_of_mem_eraseIdx hh)) (fun slot hslot => .inl hslot)
    fun m hm id' hid' hown hsettled => ?_
  rcases mem_editIn hm with ⟨hm, hne⟩ | ⟨hlisted, hid, hcontent⟩
  · refine .inl ⟨hm, hsettled.requests, hsettled.inbox, fun handler hin heq => ?_⟩
    rcases eq_or_mem_eraseIdx hh hin with rfl | hin
    · exact hne (hid'.trans heq.symm)
    · exact hsettled.handlers handler hin heq
  · cases hid.symm.trans hid'
    obtain ⟨hplain, hcurrent⟩ := ht ⟨hown, ⟨hsettled.requests, hsettled.inbox, hsettled.handlers⟩, hlisted⟩
    obtain ⟨row, hrow, -⟩ := hown
    refine .inr ⟨row, hrow, ?_⟩
    rw [hcontent, hplain, hcurrent row hrow, Option.getD_some]

theorem good_decrypted {j : Nat} {plain : Option Text} (h : s.Good decryption currentUserId)
    (ht : s.Consistent decryption currentUserId (.decrypted j plain)) :
    (s.step currentUserId (.decrypted j plain)).Good decryption currentUserId := by
  rw [step]
  cases hh : s.handlers[j]? with
  | none => exact h
  | some handler =>
    have hsound := h.1.handlers handler (List.mem_of_getElem? hh)
    replace ht := ht handler hh
    rw [Option.elim_some]
    cases handler with
    | decrypting msg =>
      dsimp only [resume]
      split
      · rename_i text hsaved
        obtain ⟨hplain, hunedited⟩ := ht text hsaved
        have hgood : (s.savePlaintext msg.id text).Good decryption currentUserId := h.savePlaintext fun id hid =>
          hplain ▸ current_of_unedited hsound hunedited id hid
        exact hgood.settle hh rfl ⟨hsound, rfl⟩
      · exact h.settle hh rfl ⟨hsound, rfl⟩
    | opening msg =>
      dsimp only [resume]
      split
      · rename_i text
        obtain ⟨hplain, hunedited⟩ := ht text rfl
        have hcurrent : ∀ id ∈ msg.id, s.Current decryption id text := fun id hid =>
          hplain ▸ current_of_unedited hsound hunedited id hid
        have hgood : (s.savePlaintext msg.id text).Good decryption currentUserId := h.savePlaintext hcurrent
        have hchosen : ((s.savePlaintext msg.id text).choose msg text).Good decryption currentUserId :=
          hgood.choose fun _ => hcurrent
        refine hchosen.settle (by rw [handlers_choose]; exact hh) rfl ⟨?_, rfl⟩
        rw [Known, rows_choose]
        exact hsound
      · exact h.settle hh rfl ⟨hsound, rfl⟩
    | scheduling msg =>
      dsimp only [resume]
      split
      · exact h.settle hh rfl ⟨hsound, rfl⟩
      · exact h.dropHandler hh rfl
    | editing id content editedAt => exact good_editing h hh ht
    | loading msg => exact h
    | placing msg decryptedMsg isScheduled => exact h

theorem mem_placed {msg decryptedMsg m : Message} {isScheduled : Bool}
    (h : m ∈ s.placed currentUserId msg decryptedMsg isScheduled) : m ∈ s.messages ∨ m.id = decryptedMsg.id := by
  have happend : m ∈ s.messages ++ [decryptedMsg] → m ∈ s.messages ∨ m.id = decryptedMsg.id := fun hm =>
    (List.mem_append.mp hm).imp_right fun hnew => by rw [List.mem_singleton.mp hnew]
  unfold placed at h
  split at h
  · unfold addScheduled at h
    split at h
    · exact .inl h
    · exact happend h
  · split at h
    · rcases mergeEcho_cases currentUserId msg.content decryptedMsg s.messages with
        ⟨heq, -⟩ | ⟨l₁, opt, l₂, hprev, -, heq, -⟩ | ⟨-, heq, -⟩
      · rw [heq] at h
        exact .inl h
      · rw [heq] at h
        rw [hprev]
        rcases List.mem_append.mp h with h | h
        · exact .inl (List.mem_append_left _ h)
        · rcases List.mem_cons.mp h with rfl | h
          · exact .inr rfl
          · exact .inl (List.mem_append_right _ (.tail _ h))
      · rw [heq] at h
        exact happend h
    · unfold mergePeer at h
      split at h
      · exact .inl h
      · split at h
        · exact (List.mem_or_eq_of_mem_set h).imp_right fun heq => by rw [heq]
        · exact happend h

/-- What is in the list stays as it is. -/
theorem placed_of_listed {msg decryptedMsg : Message} {isScheduled : Bool} (hid : decryptedMsg.id = some id)
    (hlisted : s.Listed id) : s.placed currentUserId msg decryptedMsg isScheduled = s.messages := by
  have hany : s.messages.any (·.id = decryptedMsg.id) = true := by
    obtain ⟨m, hm, hmid⟩ := hlisted
    exact List.any_eq_true.mpr ⟨m, hm, decide_eq_true (hmid.trans hid.symm)⟩
  have hthere : (decryptedMsg.id.isSome && s.messages.any (·.id = decryptedMsg.id)) = true :=
    (Bool.and_eq_true _ _).mpr ⟨hid ▸ rfl, hany⟩
  rw [placed, addScheduled, mergeEcho, mergePeer, if_pos hany, if_pos hthere, if_pos hthere, ite_self, ite_self]

/-- A message that no entry waits for is put in as it is. -/
theorem mem_placed_of_none {msg decryptedMsg m : Message} {isScheduled : Bool}
    (hnone : isScheduled ∨ pendingIndex currentUserId msg.content s.messages = none)
    (hown : isScheduled ∨ msg.senderId = currentUserId)
    (h : m ∈ s.placed currentUserId msg decryptedMsg isScheduled) : m ∈ s.messages ∨ m = decryptedMsg := by
  have happend : m ∈ s.messages ++ [decryptedMsg] → m ∈ s.messages ∨ m = decryptedMsg := fun hm =>
    (List.mem_append.mp hm).imp_right List.mem_singleton.mp
  unfold placed at h
  split at h
  · unfold addScheduled at h
    split at h
    · exact .inl h
    · exact happend h
  · rename_i hscheduled
    rw [if_pos (hown.resolve_left hscheduled), mergeEcho, hnone.resolve_left hscheduled] at h
    split at h
    · exact .inl h
    · exact happend h

theorem current_of_inPlain {msg : Message} (hknown : s.Known msg) (hplain : s.InPlain msg) :
    ∀ id ∈ msg.id, s.Current decryption id msg.content := by
  obtain ⟨id, hid, row, hrow, -⟩ := hknown
  obtain ⟨hencrypted, hsame⟩ := hplain
  intro id' hid'
  cases hid.symm.trans hid'
  refine ⟨row, hrow, ?_⟩
  have hlooks : looksEncrypted row.content = false := by
    rw [hsame id hid row hrow]
    exact (Bool.or_eq_false_iff.mp (Bool.eq_false_iff.mpr hencrypted)).2
  rw [plaintextOf_of_not hlooks, hsame id hid row hrow]

theorem good_place {j : Nat} (h : s.Good decryption currentUserId)
    (ht : s.Consistent decryption currentUserId (.place j)) :
    (s.step currentUserId (.place j)).Good decryption currentUserId := by
  rw [step]
  split
  · rename_i msg decryptedMsg isScheduled hh
    obtain ⟨hknown, hid⟩ : s.Known msg ∧ decryptedMsg.id = msg.id := h.1.handlers _ (List.mem_of_getElem? hh)
    replace ht := ht _ hh
    have hsettled : ∀ id, ({ s with handlers := s.handlers.eraseIdx j } : Transcript).Settled id → s.Settled id := by
      refine fun id hsettled => ⟨hsettled.requests, hsettled.inbox, fun handler hin heq => ?_⟩
      rcases eq_or_mem_eraseIdx hh hin with rfl | hin
      · cases heq
      · exact hsettled.handlers handler hin heq
    refine h.keep rfl (fun e he => .inl he) h.1.latest (fun id text htext => .inl htext) (fun id text htext => htext)
      (fun w hw => .inl hw) (fun handler hh => .inl (List.mem_of_mem_eraseIdx hh)) (fun slot hslot => .inl hslot)
      fun m hm id hmid hown hafter => ?_
    have hbefore : s.Settled id := hsettled id ⟨hafter.requests, hafter.inbox, hafter.handlers⟩
    rcases mem_placed hm with hold | hnew
    · exact .inl ⟨hold, hbefore⟩
    · have hmsg : msg.id = some id := (hnew.trans hid).symm.trans hmid
      rcases ht id hmsg hown hbefore with hlisted | ⟨hplain, hcontent, hnone⟩
      · rw [placed_of_listed (hid.trans hmsg) hlisted] at hm
        exact .inl ⟨hm, hbefore⟩
      · have hsender : msg.senderId = currentUserId := by
          obtain ⟨id', hid', row, hrow, hsender⟩ := hknown
          cases hid'.symm.trans hmsg
          obtain ⟨row', hrow', hown, -⟩ := hown
          cases hrow'.symm.trans hrow
          exact hsender.symm.trans hown
        rcases mem_placed_of_none hnone (.inr hsender) hm with hold | rfl
        · exact .inl ⟨hold, hbefore⟩
        · rw [hcontent]
          exact .inr (current_of_inPlain hknown hplain id hmsg)
  · exact h

end Transcript

end Vesper.Chat
