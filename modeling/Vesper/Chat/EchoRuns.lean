import Vesper.Chat.EchoSteps

/-!
# Reconciliation

Every step keeps what holds of the entries, and reconciles exactly if it meets the condition; so does every run.
-/

namespace Vesper.Chat
open Server (UserId DeviceId MessageId Text Time MessageKeyEnvelope)

namespace Echoes
variable {currentUserId : UserId} {s t : Echoes} {m msg : Message} {sent : Sent} {id : MessageId} {text : Text}

/-- A step keeps what holds of the state, and reconciles if and only if it meets the condition. -/
def Exact (s : Echoes) (currentUserId : UserId) (e : EchoEvent) : Prop :=
  (s.step currentUserId e).Sound currentUserId ∧ ((s.step currentUserId e).Reconciled ↔ s.Orderly currentUserId e)

/-- The entry of a send that takes the next number. -/
theorem Sound.waits_next (h : s.Sound currentUserId) (hown : m.senderId = currentUserId)
    (hsend : m.send = some s.nextSend) (hnext : s.nextSend < t.nextSend) (hused : ∀ c ∈ m.pendingCipher, c ∈ t.used)
    (hqueue : ∀ draft ∈ t.queue, draft ∈ s.queue ∨ m.content = draft.content)
    (hknown : ∀ sent, t.Known sent → s.Known sent ∨
      (m.content = sent.content ∨ m.content = sent.plain) ∧ m.send = sent.send)
    (hcarried : ∀ sent, s.Known sent → m.pendingCipher = some sent.content → m.content = sent.content) :
    t.Waits currentUserId m where
  own := hown
  send := ⟨s.nextSend, hnext, hsend⟩
  used := hused
  drafted draft hdraft heq := by
    refine (hqueue draft hdraft).resolve_left fun hold => ?_
    exact absurd (Option.some.inj (hsend.symm.trans heq)) (h.drafts draft hold).ne'
  shown sent hsent heq := by
    obtain hold | ⟨hshown, -⟩ := hknown sent hsent
    · exact absurd rfl ((h.known sent hold).2 _ (heq.symm.trans hsend)).ne
    · exact hshown
  carried sent hsent hcarries _ hcontent := by
    obtain hold | ⟨-, heq⟩ := hknown sent hsent
    · exact absurd (hcarried sent hold hcarries) hcontent
    · exact heq

theorem exact_send {content payload : Text} {senderDeviceId : Option DeviceId} {envelopes : List MessageKeyEnvelope}
    {isScheduled : Bool} (h : s.Sound currentUserId) (hr : s.Reconciled) (he : s.Encrypts content payload) :
    s.Exact currentUserId (.send content payload senderDeviceId envelopes isScheduled) := by
  have hknown : ∀ sent, (s.step currentUserId (.send content payload senderDeviceId envelopes isScheduled)).Known sent →
      s.Known sent ∨ sent = ⟨some s.nextSend, payload, none, senderDeviceId, envelopes, isScheduled, content⟩ := by
    rintro sent (hwire | hposted)
    · exact (List.mem_append.mp hwire).imp .inl List.mem_singleton.mp
    · exact .inl (.inr hposted)
  refine ⟨h.add rfl rfl rfl (List.subset_cons_self ..) (fun draft hdraft => .inl hdraft) (fun sent hsent => ?_) rfl rfl
    rfl rfl rfl (h.waits_next rfl rfl (Nat.lt_succ_self _) (fun c hc => ?_) (fun draft hdraft => .inl hdraft)
      (fun sent hsent => ?_) fun sent hsent hcarries => ?_),
    iff_of_true (hr.add h rfl rfl rfl rfl rfl) trivial⟩
  · exact (hknown sent hsent).imp_right fun heq => by subst heq; exact ⟨.head _, he, rfl⟩
  · cases hc
    exact .head _
  · exact (hknown sent hsent).imp_right fun heq => by subst heq; exact ⟨.inr rfl, rfl⟩
  · cases hcarries
    by_contra hcontent
    exact he (Ne.symm hcontent) (h.known sent hsent).1

theorem exact_sendFile {fileUrl content plain : Text} {senderDeviceId : Option DeviceId}
    {envelopes : List MessageKeyEnvelope} (h : s.Sound currentUserId) (hr : s.Reconciled)
    (he : s.Encrypts plain content) :
    s.Exact currentUserId (.sendFile fileUrl content senderDeviceId envelopes plain) := by
  have hknown : ∀ sent, (s.step currentUserId (.sendFile fileUrl content senderDeviceId envelopes plain)).Known sent →
      s.Known sent ∨ sent = ⟨some s.nextSend, content, some fileUrl, senderDeviceId, envelopes, false, plain⟩ := by
    rintro sent (hwire | hposted)
    · exact (List.mem_append.mp hwire).imp .inl List.mem_singleton.mp
    · exact .inl (.inr hposted)
  refine ⟨h.add rfl rfl rfl (List.subset_cons_self ..) (fun draft hdraft => .inl hdraft) (fun sent hsent => ?_) rfl rfl
    rfl rfl rfl (h.waits_next rfl rfl (Nat.lt_succ_self _) nofun (fun draft hdraft => .inl hdraft)
      (fun sent hsent => ?_) nofun),
    iff_of_true (hr.add h rfl rfl rfl rfl rfl) trivial⟩
  · exact (hknown sent hsent).imp_right fun heq => by subst heq; exact ⟨.head _, he, rfl⟩
  · exact (hknown sent hsent).imp_right fun heq => by subst heq; exact ⟨.inl rfl, rfl⟩

theorem exact_sendOffline {content : Text} (h : s.Sound currentUserId) (hr : s.Reconciled) :
    s.Exact currentUserId (.sendOffline content) := by
  refine ⟨h.add rfl rfl rfl (List.Subset.refl _) (fun draft hdraft => ?_) (fun sent hsent => .inl hsent) rfl rfl
    rfl rfl rfl (h.waits_next rfl rfl (Nat.lt_succ_self _) nofun (fun draft hdraft => ?_)
      (fun sent hsent => .inl hsent) nofun),
    iff_of_true (hr.add h rfl rfl rfl rfl rfl) trivial⟩
  · exact (List.mem_append.mp hdraft).imp_right fun hnew => by rw [List.mem_singleton.mp hnew]
  · exact (List.mem_append.mp hdraft).imp_right fun hnew => by rw [List.mem_singleton.mp hnew]; rfl

theorem exact_flush {j : Nat} {payload : Text} (h : s.Sound currentUserId) (hr : s.Reconciled)
    (he : s.Enabled (.flush j payload)) : s.Exact currentUserId (.flush j payload) := by
  obtain ⟨draft, hget, hfresh⟩ := he
  have hget : s.queue[j]? = some draft := hget
  have hdraft : draft ∈ s.queue := List.mem_of_getElem? hget
  have hstep : s.step currentUserId (.flush j payload) = ({ s with queue := s.queue.eraseIdx j } : Echoes).emit
      ⟨some draft.queueId, payload, none, none, [], false, draft.content⟩ := by
    rw [step, hget]
  unfold Exact
  rw [hstep]
  refine ⟨h.of_le rfl (List.subset_append_right ..) rfl (List.subset_cons_self ..) List.eraseIdx_subset
    (fun sent hsent => ?_) (fun _ _ hposted => hposted)
    (fun handler hhandler => .inl hhandler) fun id hid => .inl hid, iff_of_true (hr.of_eq rfl rfl rfl) trivial⟩
  rcases hsent with hwire | hposted
  · rcases List.mem_append.mp hwire with hold | hnew
    · exact .inl (.inl hold)
    · cases List.mem_singleton.mp hnew
      refine .inr ⟨.head _, hfresh, fun k hk => ?_, fun m hwaits heq => hwaits.drafted draft hdraft heq⟩
      cases hk
      exact h.drafts draft hdraft
  · exact .inl (.inr hposted)

theorem exact_arrive {j : Nat} (h : s.Sound currentUserId) (hr : s.Reconciled) (he : s.Enabled (.arrive j id)) :
    s.Exact currentUserId (.arrive j id) := by
  obtain ⟨hsome, hid⟩ := he
  obtain ⟨sent, hget⟩ := Option.isSome_iff_exists.mp hsome
  have hstep : s.step currentUserId (.arrive j id) =
      (({ s with wire := s.wire.eraseIdx j } : Echoes).post id sent).onMessage currentUserId
        (sent.message currentUserId id) := by
    rw [step, hget]
  have hposted : (({ s with wire := s.wire.eraseIdx j } : Echoes).post id sent).posted id = some sent :=
    Function.update_self ..
  have hpost : (({ s with wire := s.wire.eraseIdx j } : Echoes).post id sent).Sound currentUserId :=
    h.post hid (.inl (.inl (List.mem_of_getElem? hget))) rfl rfl rfl (List.Subset.refl _) rfl List.eraseIdx_subset rfl
      rfl fun id' hid' => .inl hid'
  have hreconciled : (({ s with wire := s.wire.eraseIdx j } : Echoes).post id sent).Reconciled :=
    (hr.post h hid).of_eq rfl rfl rfl
  unfold Exact
  rw [hstep]
  refine ⟨hpost.onMessage hposted, (reconciled_onMessage hreconciled hpost hposted).trans ⟨fun htold => ?_, fun hall => ?_⟩⟩
  · intro other hother
    cases hget.symm.trans hother
    exact htold
  · exact hall sent hget

theorem exact_due (h : s.Sound currentUserId) (hr : s.Reconciled) (he : s.Enabled (.due id)) :
    s.Exact currentUserId (.due id) := by
  obtain ⟨sent, hget⟩ := Option.ne_none_iff_exists'.mp (h.timed id he)
  have hstep : s.step currentUserId (.due id) =
      ({ s with timed := s.timed.erase id } : Echoes).onMessage currentUserId (sent.message currentUserId id) := by
    rw [step, hget]
  have hsound : ({ s with timed := s.timed.erase id } : Echoes).Sound currentUserId :=
    h.of_le rfl (List.subset_append_right ..) rfl (List.Subset.refl _) (List.Subset.refl _) (fun _ hknown => .inl hknown)
      (fun _ _ hposted => hposted) (fun _ hhandler => .inl hhandler) fun _ hid => .inl (List.mem_of_mem_erase hid)
  have hreconciled : ({ s with timed := s.timed.erase id } : Echoes).Reconciled := hr.of_eq rfl rfl rfl
  unfold Exact
  rw [hstep]
  refine ⟨hsound.onMessage hget,
    (reconciled_onMessage hreconciled hsound hget).trans ⟨fun htold => ?_, fun hall => hall sent hget⟩⟩
  intro other hother
  cases hget.symm.trans hother
  exact htold

theorem exact_other (h : s.Sound currentUserId) (hr : s.Reconciled) (he : s.Enabled (.other id sent)) :
    s.Exact currentUserId (.other id sent) := by
  obtain ⟨hsend, hid, hfresh⟩ := he
  have hposted : (({ s with used := sent.content :: s.used } : Echoes).post id sent).posted id = some sent :=
    Function.update_self ..
  have hpost : (({ s with used := sent.content :: s.used } : Echoes).post id sent).Sound currentUserId :=
    h.post hid (.inr ⟨hsend, .head _, hfresh⟩) rfl rfl rfl (List.subset_cons_self ..) rfl (List.Subset.refl _) rfl rfl
      fun id' hid' => .inl hid'
  have hreconciled : (({ s with used := sent.content :: s.used } : Echoes).post id sent).Reconciled :=
    (hr.post h hid).of_eq rfl rfl rfl
  exact ⟨hpost.onMessage hposted, reconciled_onMessage hreconciled hpost hposted⟩

theorem exact_messageScheduled {j : Nat} {content : Text} (h : s.Sound currentUserId) (hr : s.Reconciled)
    (he : s.Enabled (.messageScheduled j id content)) : s.Exact currentUserId (.messageScheduled j id content) := by
  obtain ⟨⟨sent, hget, -⟩, hid⟩ := he
  have hget : s.wire[j]? = some sent := hget
  have hnew : ∀ m ∈ s.messages, m.id ≠ some id := fun m hm heq => h.ids m hm id heq hid
  have hstep : s.step currentUserId (.messageScheduled j id content) =
      { (({ s with wire := s.wire.eraseIdx j, timed := s.timed ++ [id] } : Echoes).post id sent) with
        messages := s.messages ++ [{ sent.message currentUserId id with content }] } := by
    rw [step, hget]
    change ({ s with messages := addScheduled _ _, wire := _, timed := _ } : Echoes).post id sent = _
    rw [addScheduled, if_neg]
    · rfl
    · simp only [List.any_eq_true, decide_eq_true_eq, not_exists, not_and]
      exact hnew
  have hposted : (({ s with wire := s.wire.eraseIdx j, timed := s.timed ++ [id] } : Echoes).post id sent).posted id =
      some sent := Function.update_self ..
  have hpost : (({ s with wire := s.wire.eraseIdx j, timed := s.timed ++ [id] } : Echoes).post id sent).Sound
      currentUserId :=
    h.post hid (.inl (.inl (List.mem_of_getElem? hget))) rfl rfl rfl (List.Subset.refl _) rfl List.eraseIdx_subset rfl
      rfl fun id' hid' => (List.mem_append.mp hid').imp_right List.mem_singleton.mp
  have hreconciled : (({ s with wire := s.wire.eraseIdx j, timed := s.timed ++ [id] } : Echoes).post id sent).Reconciled :=
    (hr.post h hid).of_eq rfl rfl rfl
  have hsound : ({ (({ s with wire := s.wire.eraseIdx j, timed := s.timed ++ [id] } : Echoes).post id sent) with
      messages := s.messages ++ [{ sent.message currentUserId id with content }] } : Echoes).Sound currentUserId := by
    refine hpost.relist (fun m hm hnone => ?_) (fun m hm id' hid' => ?_) ?_
    · rcases List.mem_append.mp hm with hm | hm
      · exact hm
      · cases List.mem_singleton.mp hm
        cases hnone
    · rcases List.mem_append.mp hm with hm | hm
      · exact hpost.ids m hm id' hid'
      · cases List.mem_singleton.mp hm
        cases hid'
        rw [hposted]
        nofun
    · rw [List.filterMap_append]
      exact List.append_nil _
  unfold Exact
  rw [hstep]
  refine ⟨hsound, fun hnext => ?_, fun hall => ?_⟩
  · intro other hother opt hopt hnone k hk
    cases hget.symm.trans hother
    exact hnext.gone _ (List.mem_append_right _ (.head _)) id rfl sent hposted k hk opt (List.mem_append_left _ hopt) hnone
  · have hconfirmed : ∀ opt ∈ s.messages ++ [{ sent.message currentUserId id with content }], opt.id = none →
        opt ∈ s.messages := by
      intro opt hopt hnone
      rcases List.mem_append.mp hopt with hopt | hopt
      · exact hopt
      · cases List.mem_singleton.mp hopt
        cases hnone
    refine ⟨fun m hm id' hid' k hk => ?_, fun m hm id' hid' sent' hsent' k hk opt hopt hnone => ?_, hreconciled.cached⟩
    · rcases List.mem_append.mp hm with hm | hm
      · exact hreconciled.replaced m hm id' hid' k hk
      · cases List.mem_singleton.mp hm
        cases hk
    · rcases List.mem_append.mp hm with hm | hm
      · exact hreconciled.gone m hm id' hid' sent' hsent' k hk opt (hconfirmed opt hopt hnone) hnone
      · cases List.mem_singleton.mp hm
        cases hid'
        cases hposted.symm.trans hsent'
        exact hall sent hget opt (hconfirmed opt hopt hnone) hnone k hk

theorem exact_resume {j : Nat} {plain : Option Text} (h : s.Sound currentUserId) (hr : s.Reconciled)
    (he : s.Enabled (.resume j plain)) : s.Exact currentUserId (.resume j plain) := by
  obtain ⟨⟨msg, decryptedMsg⟩, hget, hnone, hplain⟩ := he
  cases hnone
  have hget : s.handlers[j]? = some ⟨msg, none⟩ := hget
  have hstep : s.step currentUserId (.resume j plain) = s.resume j msg plain := by
    rw [step, hget]
  have hhandles := h.handles _ (List.mem_of_getElem? hget)
  obtain ⟨id, sent, hposted, hid, hcontent⟩ := hhandles.msg
  have hshown : ∀ text, s.Handles ⟨msg, some (msg.shownAs text)⟩ :=
    fun text => handles_shownAs hposted hid hcontent hhandles.send
  unfold Exact
  rw [hstep, Echoes.resume, show msg.id.bind s.plaintexts = s.plaintexts id by rw [hid]; rfl]
  cases hcached : s.plaintexts id with
  | some cached =>
    obtain ⟨sent', hposted', hplain⟩ := hr.cached id cached hcached
    cases hposted.symm.trans hposted'
    refine ⟨(h.choose msg cached).settle ((hshown cached).of_le fun id sent hget => posted_choose.symm ▸ hget) j,
      iff_of_true ?_ trivial⟩
    exact reconciled_settle.mpr ((reconciled_choose hr hposted hid hcontent).mpr (.inr hplain))
  | none =>
    dsimp only
    cases hopened : if msg.isV3 then plain else none with
    | some text =>
      have htext : text = sent.plain := by
        split at hopened
        · obtain ⟨id', hid', sent', hposted', heq⟩ := hplain text hopened
          cases hid.symm.trans hid'
          cases hposted.symm.trans hposted'
          exact heq
        · cases hopened
      have hkeep : ((s.savePlaintext msg.id text).choose msg text).posted = s.posted := by
        rw [posted_choose, hid]
        rfl
      have hsave := hr.savePlaintext hposted hid htext
      refine ⟨((h.savePlaintext msg.id text).choose msg text).settle
        ((hshown text).of_le fun id sent hget => hkeep.symm ▸ hget) j, iff_of_true ?_ trivial⟩
      refine reconciled_settle.mpr ((reconciled_choose hsave ?_ hid hcontent).mpr (.inr htext))
      rw [hid]
      exact hposted
    | none => exact ⟨h.settle (hshown msg.content) j, iff_of_true (reconciled_settle.mpr hr) trivial⟩

theorem exact_merge {j : Nat} (h : s.Sound currentUserId) (hr : s.Reconciled) (he : s.Enabled (.merge j)) :
    s.Exact currentUserId (.merge j) := by
  obtain ⟨⟨msg, decryptedMsg⟩, hget, hsome⟩ := he
  obtain ⟨d, rfl⟩ := Option.isSome_iff_exists.mp hsome
  have hget : s.handlers[j]? = some ⟨msg, some d⟩ := hget
  have hstep : s.step currentUserId (.merge j) =
      { ({ s with handlers := s.handlers.eraseIdx j } : Echoes) with
        messages := (mergeEcho currentUserId msg.content d s.messages).1 } := by
    rw [step, hget]
  have hhandles := h.handles _ (List.mem_of_getElem? hget)
  obtain ⟨id, sent, hposted, hid, hcontent⟩ := hhandles.msg
  obtain ⟨hd, hsend⟩ := hhandles.decrypted d rfl
  replace hid : msg.id = some id := hid
  replace hcontent : msg.content = sent.content := hcontent
  replace hd : d.id = some id := hd.trans hid
  have hbefore : ({ s with handlers := s.handlers.eraseIdx j } : Echoes).Sound currentUserId :=
    h.withHandlers fun _ hhandler => .inl (List.mem_of_mem_eraseIdx hhandler)
  have hplaced := placed_iff h (.inr ⟨id, hposted⟩)
  have horderly : s.Orderly currentUserId (.merge j) ↔
      (∃ m ∈ s.messages, m.id = some id) ∨ sent.Placed currentUserId s.messages := by
    refine ⟨fun hall => hall _ hget id hid sent hposted, fun hor handler hhandler id' hid' sent' hposted' => ?_⟩
    cases hget.symm.trans hhandler
    cases hid.symm.trans hid'
    cases hposted.symm.trans hposted'
    exact hor
  unfold Exact
  rw [hstep, horderly, hplaced, hcontent]
  rcases mergeEcho_cases currentUserId sent.content d s.messages with
    ⟨hmerge, -, hthere⟩ | ⟨l₁, opt, l₂, hlist, hpending, hmerge, hnot⟩ | ⟨hpending, hmerge, hnot⟩
  · rw [hmerge]
    exact ⟨hbefore, iff_of_true (hr.of_eq rfl rfl rfl) (.inl (hd ▸ hthere))⟩
  · obtain ⟨hopt, hunconfirmed⟩ := unconfirmed_of_pendingMessage hpending
    have hnone : opt.id = none := Option.isNone_iff_eq_none.mp ((Bool.and_eq_true _ _).mp hunconfirmed).1
    obtain ⟨k, -, hk⟩ := (h.waits opt (.inl hopt) hnone).send
    have hconfirmed : (mergedWith d opt).id = some id := hd
    have hold : ∀ m ∈ l₁ ++ mergedWith d opt :: l₂, m ∈ l₁ ++ l₂ ∨ m = mergedWith d opt := by
      intro m hm
      rcases List.mem_append.mp hm with hm | hm
      · exact .inl (List.mem_append_left _ hm)
      · exact (List.mem_cons.mp hm).symm.imp_left (List.mem_append_right _)
    have hin : ∀ m ∈ l₁ ++ l₂, m ∈ s.messages := fun m hm => by
      rw [hlist]
      exact (List.mem_append.mp hm).elim (List.mem_append_left _) fun hm => List.mem_append_right _ (.tail _ hm)
    have hnodup := h.nodup
    rw [hlist, List.filterMap_append, List.filterMap_cons_some hk] at hnodup
    have hunique : ∀ m ∈ l₁ ++ l₂, m.send ≠ some k := by
      intro m hm heq
      have hmem : k ∈ l₁.filterMap (·.send) ++ l₂.filterMap (·.send) := by
        rw [← List.filterMap_append]
        exact List.mem_filterMap.mpr ⟨m, hm, heq⟩
      exact (List.nodup_cons.mp (List.nodup_middle.mp hnodup)).1 hmem
    rw [hmerge]
    refine ⟨hbefore.relist (fun m hm hid' => ?_) (fun m hm id' hid' => ?_) ?_, fun hnext => .inr ?_, fun hor => ?_⟩
    · rcases hold m hm with hm | rfl
      · exact hin m hm
      · cases hconfirmed.symm.trans hid'
    · rcases hold m hm with hm | rfl
      · exact h.ids m (hin m hm) id' hid'
      · cases hconfirmed.symm.trans hid'
        exact fun hnone => by cases hposted.symm.trans hnone
    · rw [hlist, List.filterMap_append, List.filterMap_append, List.filterMap_cons_some hk]
      exact congrArg _ (List.filterMap_cons_some hk)
    · intro opt' hopt'
      cases hpending.symm.trans hopt'
      obtain ⟨sent', hposted', heq⟩ :=
        hnext.replaced (mergedWith d opt) (List.mem_append_right _ (.head _)) id hconfirmed k hk
      cases hposted.symm.trans hposted'
      exact hk.trans heq.symm
    · have heq : opt.send = sent.send :=
        (hor.resolve_left fun hthere => hnot ⟨hd ▸ rfl, hd ▸ hthere⟩) opt hpending
      refine ⟨fun m hm id' hid' k' hk' => ?_, fun m hm id' hid' sent' hsent' k' hk' opt' hopt' hnone' => ?_, hr.cached⟩
      · rcases hold m hm with hm | rfl
        · exact hr.replaced m (hin m hm) id' hid' k' hk'
        · cases hconfirmed.symm.trans hid'
          exact ⟨sent, hposted, heq.symm.trans hk'⟩
      · have hopt' : opt' ∈ l₁ ++ l₂ := (hold opt' hopt').resolve_right fun h => by
          rw [h] at hnone'
          cases hconfirmed.symm.trans hnone'
        rcases hold m hm with hm | rfl
        · exact hr.gone m (hin m hm) id' hid' sent' hsent' k' hk' opt' (hin opt' hopt') hnone'
        · cases hconfirmed.symm.trans hid'
          cases hposted.symm.trans hsent'
          cases hk.symm.trans (heq.trans hk')
          exact hunique opt' hopt'
  · have hconfirmed : ∀ m ∈ s.messages, m.id ≠ none := by
      intro m hm hnone
      refine not_unconfirmed_of_pendingMessage hpending hm ?_
      simp [Message.unconfirmed, hnone, (h.waits m (.inl hm) hnone).own]
    rw [hmerge]
    refine ⟨hbefore.relist (fun m hm hid' => ?_) (fun m hm id' hid' => ?_) ?_, iff_of_true ?_ (.inr fun opt hopt => ?_)⟩
    · rcases List.mem_append.mp hm with hm | hm
      · exact hm
      · cases List.mem_singleton.mp hm
        cases hd.symm.trans hid'
    · rcases List.mem_append.mp hm with hm | hm
      · exact h.ids m hm id' hid'
      · cases List.mem_singleton.mp hm
        cases hd.symm.trans hid'
        exact fun hnone => by cases hposted.symm.trans hnone
    · rw [List.filterMap_append, List.filterMap_cons_none hsend]
      exact List.append_nil _
    · refine ⟨fun m hm id' hid' k hk => ?_, fun m hm id' hid' sent' hsent' k hk opt hopt hnone => ?_, hr.cached⟩
      · rcases List.mem_append.mp hm with hm | hm
        · exact hr.replaced m hm id' hid' k hk
        · cases List.mem_singleton.mp hm
          cases hsend.symm.trans hk
      · rcases List.mem_append.mp hopt with hopt | hopt
        · exact absurd hnone (hconfirmed opt hopt)
        · cases List.mem_singleton.mp hopt
          cases hd.symm.trans hnone
    · cases hpending.symm.trans hopt

theorem exact_step (h : s.Sound currentUserId) (hr : s.Reconciled) {e : EchoEvent} (he : s.Enabled e) :
    s.Exact currentUserId e := by
  cases e with
  | send content payload senderDeviceId envelopes isScheduled => exact exact_send h hr he
  | sendOffline content => exact exact_sendOffline h hr
  | flush j payload => exact exact_flush h hr he
  | sendFile fileUrl content senderDeviceId envelopes plain => exact exact_sendFile h hr he
  | arrive j id => exact exact_arrive h hr he
  | messageScheduled j id content => exact exact_messageScheduled h hr he
  | due id => exact exact_due h hr he
  | other id sent => exact exact_other h hr he
  | resume j plain => exact exact_resume h hr he
  | merge j => exact exact_merge h hr he
  | render =>
    exact ⟨h.of_le rfl (List.subset_append_left ..) rfl (List.Subset.refl _) (List.Subset.refl _)
      (fun _ hknown => .inl hknown) (fun _ _ hposted => hposted) (fun _ hhandler => .inl hhandler) fun _ hid => .inl hid,
      iff_of_true (hr.of_eq rfl rfl rfl) trivial⟩

end Echoes

/-! ## All runs -/

/-- Throughout a run of sends, flushes and echoes in any order, every echo replaces the entry of its own
send and no plaintext is stored for another message, if and only if every step meets the condition. -/
theorem echoes_reconciled {currentUserId : UserId} {es : List EchoEvent}
    (hes : (echoes currentUserId).Allowed .start es) :
    (echoes currentUserId).Throughout Echoes.Reconciled .start es ↔
      ((echoes currentUserId).restrict (Echoes.Orderly currentUserId)).Allowed .start es := by
  have hsound : Echoes.start.Sound currentUserId := by
    refine ⟨?_, ?_, ?_, .nil, ?_, ?_, ?_, ?_⟩
    · rintro m (hm | hm) <;> cases hm
    · exact fun m hm => by cases hm
    · exact fun m hm => by cases hm
    · exact fun draft hdraft => by cases hdraft
    · rintro sent (hwire | ⟨id, hposted⟩)
      · cases hwire
      · cases hposted
    · exact fun handler hhandler => by cases hhandler
    · exact fun id hid => by cases hid
  have hreconciled : Echoes.start.Reconciled :=
    ⟨fun _ hm => (by cases hm), fun _ hm => (by cases hm), fun _ _ htext => (by cases htext)⟩
  refine Machine.throughout_iff_of (I := Echoes.Sound currentUserId) (fun s e h hr he _ => ?_) (fun s e h hr he => ?_)
    hsound hreconciled hes
  · exact (Echoes.exact_step h hr he).1
  · exact (Echoes.exact_step h hr he).2

/-- A text and then a file, each after the echo of the one before. -/
def inTurn : List EchoEvent :=
  [.send [1] [2] none [] false, .render, .arrive 0 5, .merge 0, .sendFile [7] [9] none [] [8], .render, .arrive 0 6,
    .merge 0]

theorem echoes_reconciled_in_turn : (echoes 1).Throughout Echoes.Reconciled .start inTurn :=
  (echoes_reconciled (by decide)).mpr (by decide)

/-- A text is sent before the echo of a file has come. -/
def overtaken : List EchoEvent :=
  [.sendFile [7] [9] none [] [8], .send [1] [2] none [] false, .render, .arrive 0 5, .merge 0]

/-- The file takes the entry of the text, and its identifier the plaintext. -/
theorem file_takes_text :
    (echoes 1).Allowed .start overtaken ∧ ¬(echoes 1).Throughout Echoes.Reconciled .start overtaken := by
  refine ⟨by decide, fun h => ?_⟩
  obtain ⟨sent, hposted, htext⟩ := h.last.cached 5 [1] (by decide)
  have heq : some sent = some ⟨some 0, [9], some [7], none, [], false, [8]⟩ := hposted.symm.trans (by decide)
  cases heq
  cases htext

end Vesper.Chat
