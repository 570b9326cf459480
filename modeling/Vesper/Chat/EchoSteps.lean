import Vesper.Chat.Echoes

/-!
# What a step does to the entries

The rules that the steps of the echoes are made of: a new entry, a new message, a handler, and the choice of a
plaintext.
-/

namespace Vesper.Chat
open Server (UserId DeviceId MessageId Text Time MessageKeyEnvelope)

namespace Echoes
variable {currentUserId : UserId} {s t : Echoes} {m msg : Message} {sent : Sent} {id : MessageId} {text : Text}

/-- A state that differs in what is known only by messages that are new, in their ciphertexts and their
sends, as far as the entry is concerned. -/
theorem Waits.of_le (h : s.Waits currentUserId m) (hnext : s.nextSend ≤ t.nextSend) (hused : s.used ⊆ t.used)
    (hqueue : ∀ draft ∈ t.queue, draft ∈ s.queue ∨ m.send ≠ some draft.queueId)
    (hknown : ∀ sent, t.Known sent → s.Known sent ∨ (sent.content ≠ sent.plain → sent.content ∉ s.used) ∧
      (m.send = sent.send → m.content = sent.plain)) : t.Waits currentUserId m := by
  obtain ⟨k, hk, hsend⟩ := h.send
  refine ⟨h.own, ⟨k, hk.trans_le hnext, hsend⟩, fun c hc => hused (h.used c hc), fun draft hdraft heq => ?_,
    fun sent hsent heq => ?_, fun sent hsent hcarries hne hcontent => ?_⟩
  · rcases hqueue draft hdraft with hold | hne
    · exact h.drafted draft hold heq
    · exact absurd heq hne
  · rcases hknown sent hsent with hold | ⟨-, hshown⟩
    · exact h.shown sent hold heq
    · exact .inr (hshown heq)
  · rcases hknown sent hsent with hold | ⟨hfresh, -⟩
    · exact h.carried sent hold hcarries hne hcontent
    · exact absurd (h.used _ hcarries) (hfresh hne)

theorem Handles.of_le {handler : EchoHandler} (h : s.Handles handler)
    (hposted : ∀ id sent, s.posted id = some sent → t.posted id = some sent) : t.Handles handler := by
  obtain ⟨id, sent, hget, hid, hcontent⟩ := h.msg
  exact ⟨⟨id, sent, hposted id sent hget, hid, hcontent⟩, h.send, h.decrypted⟩

/-- The list stays as it is, and nothing new is emitted. -/
theorem Sound.of_le (h : s.Sound currentUserId) (hmessages : t.messages = s.messages)
    (href : t.messagesRef ⊆ s.messages ++ s.messagesRef) (hnext : t.nextSend = s.nextSend) (hused : s.used ⊆ t.used)
    (hqueue : t.queue ⊆ s.queue)
    (hknown : ∀ sent, t.Known sent → s.Known sent ∨ sent.content ∈ t.used ∧
      (sent.content ≠ sent.plain → sent.content ∉ s.used) ∧ (∀ k ∈ sent.send, k < s.nextSend) ∧
      ∀ m, s.Waits currentUserId m → m.send = sent.send → m.content = sent.plain)
    (hposted : ∀ id sent, s.posted id = some sent → t.posted id = some sent)
    (hhandles : ∀ handler ∈ t.handlers, handler ∈ s.handlers ∨ t.Handles handler) (htimed : ∀ id ∈ t.timed,
      id ∈ s.timed ∨ t.posted id ≠ none) : t.Sound currentUserId := by
  have hkeep : ∀ id, s.posted id ≠ none → t.posted id ≠ none := by
    intro id hid
    obtain ⟨sent, hget⟩ := Option.ne_none_iff_exists'.mp hid
    rw [hposted id sent hget]
    nofun
  refine ⟨fun m hm hnone => ?_, fun m hm id hid => ?_, fun m hm k hk => ?_, ?_, fun draft hdraft => ?_,
    fun sent hsent => ?_, fun handler hhandler => ?_, fun id hid => ?_⟩
  · have hold : m ∈ s.messages ∨ m ∈ s.messagesRef := by
      rcases hm with hm | hm
      · exact .inl (hmessages ▸ hm)
      · exact List.mem_append.mp (href hm)
    have hwaits := h.waits m hold hnone
    refine hwaits.of_le hnext.ge hused (fun draft hdraft => .inl (hqueue hdraft)) fun sent hsent => ?_
    exact (hknown sent hsent).imp_right fun ⟨_, hfresh, _, hshown⟩ => ⟨hfresh, hshown m hwaits⟩
  · exact hkeep id (h.ids m (hmessages ▸ hm) id hid)
  · exact hnext ▸ h.sends m (hmessages ▸ hm) k hk
  · exact hmessages ▸ h.nodup
  · exact hnext ▸ h.drafts draft (hqueue hdraft)
  · rw [hnext]
    rcases hknown sent hsent with hold | ⟨hin, -, hlt, -⟩
    · exact ⟨hused (h.known sent hold).1, (h.known sent hold).2⟩
    · exact ⟨hin, hlt⟩
  · rcases hhandles handler hhandler with hold | hnew
    · exact (h.handles handler hold).of_le hposted
    · exact hnew
  · rcases htimed id hid with hold | hnew
    · exact hkeep id (h.timed id hold)
    · exact hnew

/-- A new entry, for a send that is emitted or queued. -/
theorem Sound.add (h : s.Sound currentUserId) (hmessages : t.messages = s.messages ++ [m])
    (href : t.messagesRef = s.messagesRef) (hnext : t.nextSend = s.nextSend + 1) (hused : s.used ⊆ t.used)
    (hqueue : ∀ draft ∈ t.queue, draft ∈ s.queue ∨ draft.queueId = s.nextSend)
    (hknown : ∀ sent, t.Known sent → s.Known sent ∨ sent.content ∈ t.used ∧
      (sent.content ≠ sent.plain → sent.content ∉ s.used) ∧ sent.send = some s.nextSend)
    (hposted : t.posted = s.posted) (hhandlers : t.handlers = s.handlers) (htimed : t.timed = s.timed)
    (hnone : m.id = none) (hsend : m.send = some s.nextSend) (hwaits : t.Waits currentUserId m) :
    t.Sound currentUserId := by
  have hold : ∀ m', m' ∈ s.messages ∨ m' ∈ s.messagesRef → m'.id = none → t.Waits currentUserId m' := by
    intro m' hm' hid
    have hw := h.waits m' hm' hid
    obtain ⟨k, hk, hsend'⟩ := hw.send
    have hother : m'.send ≠ some s.nextSend := by
      rw [hsend']
      exact fun heq => hk.ne (Option.some.inj heq)
    refine hw.of_le (hnext ▸ Nat.le_succ _) hused (fun draft hdraft => ?_) fun sent hsent => ?_
    · refine (hqueue draft hdraft).imp_right fun heq => ?_
      rwa [heq]
    · exact (hknown sent hsent).imp_right fun ⟨_, hfresh, heq⟩ =>
        ⟨hfresh, fun hsame => absurd (hsame.trans heq) hother⟩
  refine ⟨fun m' hm' hid => ?_, fun m' hm' id hid => ?_, fun m' hm' k hk => ?_, ?_, fun draft hdraft => ?_,
    fun sent hsent => ?_, fun handler hhandler => ?_, fun id hid => ?_⟩
  · rw [hmessages, href] at hm'
    rcases hm' with hm' | hm'
    · rcases List.mem_append.mp hm' with hm' | hm'
      · exact hold m' (.inl hm') hid
      · exact List.mem_singleton.mp hm' ▸ hwaits
    · exact hold m' (.inr hm') hid
  · rw [hmessages] at hm'
    rw [hposted]
    rcases List.mem_append.mp hm' with hm' | hm'
    · exact h.ids m' hm' id hid
    · cases List.mem_singleton.mp hm'
      cases hnone.symm.trans hid
  · rw [hmessages] at hm'
    rw [hnext]
    rcases List.mem_append.mp hm' with hm' | hm'
    · exact (h.sends m' hm' k hk).trans (Nat.lt_succ_self _)
    · cases List.mem_singleton.mp hm'
      cases hsend.symm.trans hk
      exact Nat.lt_succ_self _
  · rw [hmessages, List.filterMap_append]
    refine List.nodup_append.mpr ⟨h.nodup, by simp [hsend], fun k hk k' hk' heq => ?_⟩
    obtain ⟨m', hm', hget⟩ := List.mem_filterMap.mp hk
    have hnew : k' = s.nextSend := by simpa [hsend] using hk'
    exact (h.sends m' hm' k hget).ne (heq.trans hnew)
  · rw [hnext]
    rcases hqueue draft hdraft with hin | heq
    · exact (h.drafts draft hin).trans (Nat.lt_succ_self _)
    · exact heq ▸ Nat.lt_succ_self _
  · rw [hnext]
    rcases hknown sent hsent with hin | ⟨hin, -, heq⟩
    · exact ⟨hused (h.known sent hin).1, fun k hk => ((h.known sent hin).2 k hk).trans (Nat.lt_succ_self _)⟩
    · refine ⟨hin, fun k hk => ?_⟩
      cases heq.symm.trans hk
      exact Nat.lt_succ_self _
  · exact (h.handles handler (hhandlers ▸ hhandler)).of_le fun id sent hget => hposted ▸ hget
  · rw [hposted]
    exact h.timed id (htimed ▸ hid)

theorem Reconciled.of_eq (h : s.Reconciled) (hmessages : t.messages = s.messages) (hposted : t.posted = s.posted)
    (hplaintexts : t.plaintexts = s.plaintexts) : t.Reconciled :=
  ⟨hmessages ▸ hposted ▸ h.replaced, hmessages ▸ hposted ▸ h.gone, hplaintexts ▸ hposted ▸ h.cached⟩

theorem reconciled_congr (hmessages : t.messages = s.messages) (hposted : t.posted = s.posted)
    (hplaintexts : t.plaintexts = s.plaintexts) : t.Reconciled ↔ s.Reconciled :=
  ⟨fun h => h.of_eq hmessages.symm hposted.symm hplaintexts.symm, fun h => h.of_eq hmessages hposted hplaintexts⟩

@[simp] theorem reconciled_suspend {handler : EchoHandler} : (s.suspend handler).Reconciled ↔ s.Reconciled :=
  reconciled_congr rfl rfl rfl

@[simp] theorem reconciled_settle {j : Nat} {handler : EchoHandler} :
    (s.settle j handler).Reconciled ↔ s.Reconciled :=
  reconciled_congr rfl rfl rfl

theorem Reconciled.add (h : s.Reconciled) (hs : s.Sound currentUserId) (hmessages : t.messages = s.messages ++ [m])
    (hposted : t.posted = s.posted) (hplaintexts : t.plaintexts = s.plaintexts) (hnone : m.id = none)
    (hsend : m.send = some s.nextSend) : t.Reconciled := by
  have hold : ∀ m' ∈ t.messages, ∀ id ∈ m'.id, m' ∈ s.messages := by
    intro m' hm' id hid
    rcases List.mem_append.mp (hmessages ▸ hm') with hm' | hm'
    · exact hm'
    · cases List.mem_singleton.mp hm'
      cases hnone.symm.trans hid
  refine ⟨fun m' hm' id hid => ?_, fun m' hm' id hid sent hsent k hk opt hopt hoptid => ?_, ?_⟩
  · rw [hposted]
    exact h.replaced m' (hold m' hm' id hid) id hid
  · rw [hposted] at hsent
    rcases List.mem_append.mp (hmessages ▸ hopt) with hopt | hopt
    · exact h.gone m' (hold m' hm' id hid) id hid sent hsent k hk opt hopt hoptid
    · cases List.mem_singleton.mp hopt
      rw [hsend]
      exact fun heq => ((hs.known sent (.inr ⟨id, hsent⟩)).2 k hk).ne' (Option.some.inj heq)
  · rw [hposted, hplaintexts]
    exact h.cached

theorem Reconciled.post (h : s.Reconciled) (hs : s.Sound currentUserId) (hid : s.posted id = none) :
    (s.post id sent).Reconciled := by
  have hother : ∀ id', s.posted id' ≠ none → (s.post id sent).posted id' = s.posted id' := by
    intro id' hne
    refine Function.update_of_ne ?_ ..
    rintro rfl
    exact hne hid
  refine ⟨fun m hm id' hid' => ?_, fun m hm id' hid' => ?_, fun id' text htext => ?_⟩
  · rw [hother id' (hs.ids m hm id' hid')]
    exact h.replaced m hm id' hid'
  · rw [hother id' (hs.ids m hm id' hid')]
    exact h.gone m hm id' hid'
  · obtain ⟨sent', hget, heq⟩ := h.cached id' text htext
    exact ⟨sent', (hother id' fun hne => by cases hne.symm.trans hget).trans hget, heq⟩

theorem Reconciled.savePlaintext (h : s.Reconciled) (hget : s.posted id = some sent) (hid : msg.id = some id)
    (htext : text = sent.plain) : (s.savePlaintext msg.id text).Reconciled := by
  rw [hid]
  refine ⟨h.replaced, h.gone, fun id' text' htext' => ?_⟩
  change Function.update s.plaintexts id (some text) id' = some text' at htext'
  by_cases hne : id' = id
  · subst hne
    rw [Function.update_self] at htext'
    cases htext'
    exact ⟨sent, hget, htext⟩
  · rw [Function.update_of_ne hne] at htext'
    exact h.cached id' text' htext'

/-- The plaintext that is chosen is stored, unless it is the content. -/
theorem reconciled_choose (h : s.Reconciled) (hget : s.posted id = some sent) (hid : msg.id = some id)
    (hcontent : msg.content = sent.content) :
    (s.choose msg text).Reconciled ↔ text = sent.content ∨ text = sent.plain := by
  unfold choose
  by_cases hsame : text = msg.content
  · rw [if_neg (not_not_intro hsame)]
    exact iff_of_true h (.inl (hsame.trans hcontent))
  · rw [if_pos hsame]
    constructor
    · intro hr
      rw [hid] at hr
      obtain ⟨sent', hget', heq⟩ := hr.cached id text (Function.update_self ..)
      cases hget.symm.trans hget'
      exact .inr heq
    · intro htext
      exact h.savePlaintext hget hid (htext.resolve_left fun heq => hsame (heq.trans hcontent.symm))

/-- An encrypted entry that carries an encrypted content comes from the same send. -/
theorem told_iff (hs : s.Sound currentUserId) (hknown : s.Known sent) :
    sent.Told currentUserId s.messagesRef ↔
      ∀ opt ∈ pendingMessage currentUserId sent.content s.messagesRef,
        opt.content = sent.content ∨ opt.content = sent.plain := by
  unfold Sent.Told pendingMessage
  cases hfind : s.messagesRef.find? (·.carries currentUserId sent.content) with
  | none => exact Iff.rfl
  | some opt =>
    have hcarries := List.find?_some hfind
    obtain ⟨hunconfirmed, hcipher⟩ := (Bool.and_eq_true _ _).mp hcarries
    have hnone : opt.id = none := Option.isNone_iff_eq_none.mp ((Bool.and_eq_true _ _).mp hunconfirmed).1
    have hwaits := hs.waits opt (.inr (List.mem_of_find?_eq_some hfind)) hnone
    refine ⟨fun htold opt' hopt' => ?_, fun hall hplain => ?_⟩
    · cases hopt'
      by_cases hplain : sent.content = sent.plain
      · exact .inl (htold hplain)
      · by_cases hcontent : opt.content = sent.content
        · exact .inl hcontent
        · exact hwaits.shown sent hknown (hwaits.carried sent hknown (of_decide_eq_true hcipher) hplain hcontent)
    · rcases hall opt rfl with heq | heq
      · exact heq
      · exact heq.trans hplain.symm

theorem placed_iff (hs : s.Sound currentUserId) (hknown : s.Known sent) :
    sent.Placed currentUserId s.messages ↔
      ∀ opt ∈ pendingMessage currentUserId sent.content s.messages, opt.send = sent.send := by
  unfold Sent.Placed pendingMessage
  cases hfind : s.messages.find? (·.carries currentUserId sent.content) with
  | none => exact Iff.rfl
  | some opt =>
    have hcarries := List.find?_some hfind
    obtain ⟨hunconfirmed, hcipher⟩ := (Bool.and_eq_true _ _).mp hcarries
    have hnone : opt.id = none := Option.isNone_iff_eq_none.mp ((Bool.and_eq_true _ _).mp hunconfirmed).1
    have hwaits := hs.waits opt (.inl (List.mem_of_find?_eq_some hfind)) hnone
    refine ⟨fun hplaced opt' hopt' => ?_, fun hall _ => hall opt rfl⟩
    cases hopt'
    by_cases hplain : sent.content = sent.plain
    · exact hplaced (.inl hplain)
    · by_cases hcontent : opt.content = sent.content
      · exact hplaced (.inr hcontent)
      · exact hwaits.carried sent hknown (of_decide_eq_true hcipher) hplain hcontent

theorem onMessage_some {optMsg : Message} (h : pendingMessage currentUserId msg.content s.messagesRef = some optMsg) :
    s.onMessage currentUserId msg =
      (s.choose msg optMsg.content).suspend ⟨msg, some (msg.shownAs optMsg.content)⟩ := by
  rw [onMessage, h]

theorem onMessage_none (h : pendingMessage currentUserId msg.content s.messagesRef = none) :
    s.onMessage currentUserId msg = s.suspend ⟨msg, none⟩ := by
  rw [onMessage, h]

/-- The first part of `onMessage`, for a message that is stored. -/
theorem reconciled_onMessage (h : s.Reconciled) (hs : s.Sound currentUserId) (hget : s.posted id = some sent) :
    (s.onMessage currentUserId (sent.message currentUserId id)).Reconciled ↔
      sent.Told currentUserId s.messagesRef := by
  rw [told_iff hs (.inr ⟨id, hget⟩)]
  cases hpending : pendingMessage currentUserId sent.content s.messagesRef with
  | none =>
    rw [onMessage_none hpending, reconciled_suspend]
    exact iff_of_true h fun opt hopt => by cases hopt
  | some opt =>
    rw [onMessage_some hpending, reconciled_suspend, reconciled_choose h hget rfl rfl]
    refine ⟨fun htext opt' hopt' => ?_, fun hall => hall opt rfl⟩
    cases hopt'
    exact htext

theorem Sound.withPlaintexts (h : s.Sound currentUserId) (plaintexts : MessageId → Option Text) :
    ({ s with plaintexts } : Echoes).Sound currentUserId :=
  h.of_le rfl (List.subset_append_right ..) rfl (List.Subset.refl _) (List.Subset.refl _) (fun _ hknown => .inl hknown)
    (fun _ _ hget => hget) (fun _ hhandler => .inl hhandler) fun _ hid => .inl hid

theorem Sound.savePlaintext (h : s.Sound currentUserId) (id : Option MessageId) (text : Text) :
    (s.savePlaintext id text).Sound currentUserId := by
  cases id with
  | none => exact h
  | some id => exact h.withPlaintexts _

theorem Sound.choose (h : s.Sound currentUserId) (msg : Message) (text : Text) :
    (s.choose msg text).Sound currentUserId := by
  unfold Echoes.choose
  split
  · exact h.savePlaintext ..
  · exact h

theorem Sound.withHandlers (h : s.Sound currentUserId) {handlers : List EchoHandler}
    (hhandles : ∀ handler ∈ handlers, handler ∈ s.handlers ∨ s.Handles handler) :
    ({ s with handlers } : Echoes).Sound currentUserId :=
  h.of_le rfl (List.subset_append_right ..) rfl (List.Subset.refl _) (List.Subset.refl _) (fun _ hknown => .inl hknown)
    (fun _ _ hget => hget)
    (fun handler hhandler => (hhandles handler hhandler).imp_right fun h => h.of_le fun _ _ hget => hget)
    fun _ hid => .inl hid

theorem Sound.suspend (h : s.Sound currentUserId) {handler : EchoHandler} (hhandles : s.Handles handler) :
    (s.suspend handler).Sound currentUserId := by
  refine h.withHandlers fun other hother => ?_
  rcases List.mem_append.mp hother with hother | hother
  · exact .inl hother
  · exact .inr (List.mem_singleton.mp hother ▸ hhandles)

theorem Sound.settle (h : s.Sound currentUserId) {handler : EchoHandler} (hhandles : s.Handles handler) (j : Nat) :
    (s.settle j handler).Sound currentUserId := by
  refine h.withHandlers fun other hother => ?_
  rcases List.mem_or_eq_of_mem_set hother with hold | rfl
  · exact .inl hold
  · exact .inr hhandles

theorem posted_choose : (s.choose msg text).posted = s.posted := by
  unfold choose savePlaintext
  split
  · split <;> rfl
  · rfl

theorem handles_shownAs (hget : s.posted id = some sent) (hid : msg.id = some id) (hcontent : msg.content = sent.content)
    (hsend : msg.send = none) : s.Handles ⟨msg, some (msg.shownAs text)⟩ :=
  ⟨⟨id, sent, hget, hid, hcontent⟩, hsend, fun d hd => by cases hd; exact ⟨rfl, hsend⟩⟩

theorem Sound.onMessage (h : s.Sound currentUserId) (hget : s.posted id = some sent) :
    (s.onMessage currentUserId (sent.message currentUserId id)).Sound currentUserId := by
  cases hpending : pendingMessage currentUserId sent.content s.messagesRef with
  | none =>
    rw [onMessage_none hpending]
    exact h.suspend ⟨⟨id, sent, hget, rfl, rfl⟩, rfl, fun d hd => by cases hd⟩
  | some opt =>
    rw [onMessage_some hpending]
    refine (h.choose _ _).suspend (handles_shownAs ?_ rfl rfl rfl)
    rw [posted_choose]
    exact hget

/-- Messages are confirmed in the list, or come into it with their identifiers. -/
theorem Sound.relist (h : s.Sound currentUserId) {messages : List Message}
    (hwait : ∀ m ∈ messages, m.id = none → m ∈ s.messages) (hids : ∀ m ∈ messages, ∀ id ∈ m.id, s.posted id ≠ none)
    (hsend : messages.filterMap (·.send) = s.messages.filterMap (·.send)) :
    ({ s with messages } : Echoes).Sound currentUserId := by
  refine ⟨fun m hm hnone => ?_, hids, fun m hm k hk => ?_, hsend ▸ h.nodup, h.drafts, h.known,
    fun handler hhandler => (h.handles handler hhandler).of_le fun _ _ hget => hget, h.timed⟩
  · have hold : m ∈ s.messages ∨ m ∈ s.messagesRef := hm.imp_left fun hm => hwait m hm hnone
    exact (h.waits m hold hnone).of_le le_rfl (List.Subset.refl _) (fun _ hdraft => .inl hdraft)
      fun _ hknown => .inl hknown
  · have hmem : k ∈ s.messages.filterMap (·.send) := hsend ▸ List.mem_filterMap.mpr ⟨m, hm, hk⟩
    obtain ⟨m', hm', hk'⟩ := List.mem_filterMap.mp hmem
    exact h.sends m' hm' k hk'

/-- A message that was emitted, or comes from another device, is stored under a fresh identifier. -/
theorem Sound.post (h : s.Sound currentUserId) (hid : s.posted id = none) (hnew : s.Known sent ∨
      sent.send = none ∧ sent.content ∈ t.used ∧ (sent.content ≠ sent.plain → sent.content ∉ s.used))
    (hmessages : t.messages = s.messages) (href : t.messagesRef = s.messagesRef) (hnext : t.nextSend = s.nextSend)
    (hused : s.used ⊆ t.used) (hqueue : t.queue = s.queue) (hwire : t.wire ⊆ s.wire) (hposted : t.posted = s.posted)
    (hhandlers : t.handlers = s.handlers) (htimed : ∀ id' ∈ t.timed, id' ∈ s.timed ∨ id' = id) :
    (t.post id sent).Sound currentUserId := by
  have hkeep : ∀ id' sent', s.posted id' = some sent' → (t.post id sent).posted id' = some sent' := by
    intro id' sent' hget
    rw [← hposted] at hget
    refine (Function.update_of_ne ?_ ..).trans hget
    rintro rfl
    cases hid.symm.trans (hposted ▸ hget)
  refine h.of_le hmessages (href ▸ List.subset_append_right ..) hnext hused (hqueue ▸ List.Subset.refl _)
    (fun sent' hsent' => ?_) hkeep
    (fun handler hhandler => .inl (hhandlers ▸ hhandler)) fun id' hid' => ?_
  · rcases hsent' with hwire' | ⟨id', hget⟩
    · exact .inl (.inl (hwire hwire'))
    · change Function.update t.posted id (some sent) id' = some sent' at hget
      by_cases hne : id' = id
      · subst hne
        rw [Function.update_self] at hget
        cases hget
        rcases hnew with hknown | ⟨hsend, hin, hfresh⟩
        · exact .inl hknown
        · refine .inr ⟨hin, hfresh, fun k hk => ?_, fun m hwaits heq => ?_⟩
          · cases hsend.symm.trans hk
          · obtain ⟨k, -, hk⟩ := hwaits.send
            cases (hsend.symm.trans heq.symm).trans hk
      · rw [Function.update_of_ne hne, hposted] at hget
        exact .inl (.inr ⟨id', hget⟩)
  · rcases htimed id' hid' with hold | rfl
    · exact .inl hold
    · refine .inr fun hnone => ?_
      cases (Function.update_self ..).symm.trans hnone

end Echoes

end Vesper.Chat
