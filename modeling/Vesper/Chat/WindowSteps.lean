import Vesper.Chat.Window

/-!
# Live messages in the window

What the server does, a live message and an optimistic entry keep a window without gaps, as long as the message
is the next one.
-/

namespace Vesper.Chat
open Server

namespace Window
variable {currentUserId : UserId} {conversationId : ConversationId} {s t : Window} {id : MessageId}

theorem Contiguous.keep (h : s.Contiguous currentUserId conversationId) (hview : t.view = s.view)
    (hsegment : confirmed t.messages <:+: s.visible currentUserId conversationId)
    (hsub : confirmed s.messages ⊆ confirmed t.messages) (hfilled : t.Filled → s.Filled)
    (hnewer : t.flags.hasMoreNewer = s.flags.hasMoreNewer) (hmore : t.flags.hasMore = s.flags.hasMore)
    (hnewest : s.flags.hasMoreNewer = false → ∀ id, id ∈ s.pipeline ∨ s.InPage LoadKind.isNewer id →
      (id ∈ t.pipeline ∨ t.InPage LoadKind.isNewer id) ∨ id ∈ confirmed t.messages)
    (holdest : s.flags.hasMore = false → ∀ id, confirmed s.messages = [] ∧ id ∈ s.pipeline ∨ s.InPage LoadKind.isMore id →
      (confirmed t.messages = [] ∧ id ∈ t.pipeline ∨ t.InPage LoadKind.isMore id) ∨ id ∈ confirmed t.messages) :
    t.Contiguous currentUserId conversationId := by
  have hvisible : t.visible currentUserId conversationId = s.visible currentUserId conversationId := by
    rw [visible, hview]
    rfl
  refine ⟨hvisible ▸ hsegment, fun hf hflag id hid => ?_, fun hf hflag id hid => ?_⟩
  · rcases h.newest (hfilled hf) (hnewer ▸ hflag) id (hvisible ▸ hid) with hcoming | ⟨w, hw, hle⟩
    · exact (hnewest (hnewer ▸ hflag) id hcoming).imp_right fun hin => ⟨id, hin, le_rfl⟩
    · exact .inr ⟨w, hsub hw, hle⟩
  · rcases h.oldest (hfilled hf) (hmore ▸ hflag) id (hvisible ▸ hid) with hcoming | ⟨w, hw, hle⟩
    · exact (holdest (hmore ▸ hflag) id hcoming).imp_right fun hin => ⟨id, hin, le_rfl⟩
    · exact .inr ⟨w, hsub hw, hle⟩

theorem Sound.keep (h : s.Sound currentUserId conversationId) (hview : t.view = s.view)
    (hlive : ∀ live ∈ t.inbox ++ t.handlers, live ∈ s.inbox ++ s.handlers)
    (hown : ∀ m ∈ t.messages, m.id = none → m ∈ s.messages ∨ m.senderId = currentUserId)
    (href : ∀ m ∈ t.messagesRef, m ∈ s.messagesRef ∨ ∀ id ∈ m.id, id ∈ s.visible currentUserId conversationId)
    (hloads : ∀ load ∈ t.loads, load ∈ s.loads ∨ Load.Sound (s.visible currentUserId conversationId) load) :
    t.Sound currentUserId conversationId := by
  have hvisible : t.visible currentUserId conversationId = s.visible currentUserId conversationId := by
    rw [visible, hview]
    rfl
  refine ⟨hview ▸ h.view, fun live hin => h.announced live (hlive live hin), fun m hm hnone => ?_,
    fun m hm id hid => ?_, fun load hload => ?_⟩
  · exact (hown m hm hnone).elim (fun hold => h.own m hold hnone) id
  · rw [hvisible]
    exact (href m hm).elim (fun hold => h.ref m hold id hid) fun hnew => hnew id hid
  · rw [hvisible]
    exact (hloads load hload).elim (h.loads load) id

/-- Both parts of what is shown. -/
abbrev Good (s : Window) (currentUserId : UserId) (conversationId : ConversationId) : Prop :=
  s.Sound currentUserId conversationId ∧ s.Contiguous currentUserId conversationId

/-- The list, its flags and what is on its way stay. -/
theorem Good.keep (h : s.Good currentUserId conversationId) (hview : t.view = s.view) (hmessages : t.messages = s.messages)
    (hnewer : t.flags.hasMoreNewer = s.flags.hasMoreNewer) (hmore : t.flags.hasMore = s.flags.hasMore)
    (hloaded : t.loaded = s.loaded) (hlive : ∀ live, live ∈ t.inbox ++ t.handlers ↔ live ∈ s.inbox ++ s.handlers)
    (href : ∀ m ∈ t.messagesRef, m ∈ s.messagesRef ∨ m ∈ s.messages)
    (hloads : ∀ load ∈ t.loads, load ∈ s.loads ∨ Load.Sound (s.visible currentUserId conversationId) load)
    (hpages : ∀ isKind id, s.InPage isKind id → t.InPage isKind id) :
    t.Good currentUserId conversationId := by
  have hpipeline : s.pipeline ⊆ t.pipeline := fun id hid => by
    obtain ⟨live, hin, heq⟩ := List.mem_filterMap.mp hid
    exact List.mem_filterMap.mpr ⟨live, (hlive live).mpr hin, heq⟩
  refine ⟨h.1.keep hview (fun live => (hlive live).mp) (fun m hm _ => .inl (hmessages ▸ hm)) (fun m hm => (href m hm).imp_right fun hm id hid => ?_) hloads,
    h.2.keep hview (hmessages ▸ h.2.segment) (hmessages ▸ List.Subset.refl _) (fun hf => ?_) hnewer hmore
      (fun _ id hid => .inl (hid.imp (hpipeline ·) (hpages _ id)))
      fun _ id hid => .inl (hid.imp (fun hin => ⟨hmessages ▸ hin.1, hpipeline hin.2⟩) (hpages _ id))⟩
  · exact h.2.segment.subset (mem_confirmed.mpr ⟨m, hm, hid⟩)
  · rw [Filled, hmessages, hloaded] at hf
    exact hf

theorem Good.request (h : s.Good currentUserId conversationId) {kind : LoadKind}
    (hkind : ∀ c, kind = .more (some c) → c ∈ s.visible currentUserId conversationId) :
    (s.request kind).Good currentUserId conversationId := by
  refine h.keep rfl rfl rfl rfl rfl (fun _ => Iff.rfl) (fun m hm => .inl hm) (fun load hload => ?_) fun isKind id hid => ?_
  · refine (List.mem_append.mp hload).imp_right fun hnew => ?_
    cases List.mem_singleton.mp hnew
    exact ⟨hkind, fun page hpage => by cases hpage⟩
  · obtain ⟨load, hload, hcoming⟩ := hid
    exact ⟨load, List.mem_append_left _ hload, hcoming⟩

theorem good_server {view : View} {announced : List Live} (h : s.Good currentUserId conversationId)
    (he : s.Enabled currentUserId conversationId (.server view announced))
    (ht : s.Timely currentUserId conversationId (.server view announced)) :
    (s.step currentUserId conversationId (.server view announced)).Good currentUserId conversationId := by
  obtain ⟨hview, hids⟩ := he
  obtain ⟨hgrows, hannounced⟩ := ht
  have hsorted : (view.visible currentUserId conversationId).Pairwise (· < ·) := visible_sorted hview
  have hpipeline : s.pipeline ⊆ (s.step currentUserId conversationId (.server view announced)).pipeline := by
    intro id hid
    obtain ⟨live, hlive, heq⟩ := List.mem_filterMap.mp hid
    refine List.mem_filterMap.mpr ⟨live, ?_, heq⟩
    exact (List.mem_append.mp hlive).elim (fun h => List.mem_append_left _ (List.mem_append_left _ h))
      (List.mem_append_right _)
  have hnew : s.Tracks → ∀ id ∈ view.visible currentUserId conversationId, id ∉ s.visible currentUserId conversationId →
      id ∈ (s.step currentUserId conversationId (.server view announced)).pipeline := by
    intro htracks id hid hnot
    obtain ⟨live, hlive, heq⟩ := (hannounced htracks id hid).resolve_left hnot
    exact List.mem_filterMap.mpr ⟨live, List.mem_append_left _ (List.mem_append_right _ hlive), heq⟩
  have hlive : ∀ live ∈ (s.inbox ++ announced) ++ s.handlers, live.msg.id.isSome := by
    intro live hin
    rcases List.mem_append.mp hin with hin | hin
    · rcases List.mem_append.mp hin with hin | hin
      · exact h.1.announced live (List.mem_append_left _ hin)
      · exact hids live hin
    · exact h.1.announced live (List.mem_append_right _ hin)
  refine ⟨⟨hview, hlive, h.1.own, fun m hm id hid => hgrows.subset (h.1.ref m hm id hid), fun load hload => ?_⟩,
    h.2.segment.trans hgrows.isInfix, fun hf hflag id hid => ?_, fun hf hflag id hid => ?_⟩
  · obtain ⟨hcursor, hpage⟩ := h.1.loads load hload
    refine ⟨fun c hc => hgrows.subset (hcursor c hc), fun page hp => ?_⟩
    obtain ⟨hlength, hconfirmed, hfits⟩ := hpage page hp
    exact ⟨hlength, hconfirmed, hfits.mono hsorted hgrows⟩
  · by_cases hold : id ∈ s.visible currentUserId conversationId
    · exact (h.2.newest hf hflag id hold).imp_left fun hcoming => hcoming.imp_left (hpipeline ·)
    · exact .inl (.inl (hnew ⟨hf, .inl hflag⟩ id hid hold))
  · by_cases hold : id ∈ s.visible currentUserId conversationId
    · exact (h.2.oldest hf hflag id hold).imp_left fun hcoming => hcoming.imp_left fun hin => ⟨hin.1, hpipeline hin.2⟩
    · cases hempty : confirmed s.messages with
      | nil => exact .inl (.inl ⟨hempty, hnew ⟨hf, .inr hempty⟩ id hid hold⟩)
      | cons w rest =>
        have hw : w ∈ confirmed s.messages := hempty ▸ .head _
        exact .inr ⟨w, hw, (List.lt_of_mem_of_prefix hsorted hgrows (h.2.segment.subset hw) hid hold).le⟩

theorem good_disconnect (h : s.Good currentUserId conversationId)
    (ht : s.Timely currentUserId conversationId .disconnect) :
    (s.step currentUserId conversationId .disconnect).Good currentUserId conversationId := by
  have hpipeline : s.Tracks → ∀ id ∈ s.pipeline,
      id ∈ (s.step currentUserId conversationId .disconnect).pipeline ∨ id ∈ confirmed s.messages := by
    intro htracks id hid
    obtain ⟨live, hlive, heq⟩ := List.mem_filterMap.mp hid
    rcases List.mem_append.mp hlive with hlive | hlive
    · exact .inr (ht htracks live hlive id heq)
    · exact .inl (List.mem_filterMap.mpr ⟨live, hlive, heq⟩)
  refine ⟨h.1.keep rfl (fun live => List.mem_append_right _) (fun m hm _ => .inl hm) (fun m hm => .inl hm)
      (fun load hload => .inl hload), h.2.segment, fun hf hflag id hid => ?_, fun hf hflag id hid => ?_⟩
  · rcases h.2.newest hf hflag id hid with (hin | hin) | hle
    · exact (hpipeline ⟨hf, .inl hflag⟩ id hin).imp .inl fun hin => ⟨id, hin, le_rfl⟩
    · exact .inl (.inr hin)
    · exact .inr hle
  · rcases h.2.oldest hf hflag id hid with (⟨hempty, hin⟩ | hin) | hle
    · refine (hpipeline ⟨hf, .inr hempty⟩ id hin).imp (fun hin => .inl ⟨hempty, hin⟩) fun hin => ?_
      rw [hempty] at hin
      cases hin
    · exact .inl (.inr hin)
    · exact .inr hle

theorem good_deliver (h : s.Good currentUserId conversationId) :
    (s.step currentUserId conversationId .deliver).Good currentUserId conversationId := by
  refine h.keep rfl rfl rfl rfl rfl (fun live => ?_) (fun m hm => .inl hm) (fun load hload => .inl hload)
    fun isKind id hid => hid
  change live ∈ s.inbox.drop 1 ++ (s.handlers ++ s.inbox.take 1) ↔ _
  have hsplit : live ∈ s.inbox ↔ live ∈ s.inbox.take 1 ∨ live ∈ s.inbox.drop 1 := by
    rw [← List.mem_append, List.take_append_drop]
  simp only [List.mem_append, hsplit]
  tauto

/-- The next message of the history is put after the confirmed ones. -/
theorem Contiguous.next (h : s.Contiguous currentUserId conversationId) (hsound : s.view.Sound)
    (hnext : s.Next currentUserId conversationId id) (hview : t.view = s.view)
    (hconfirmed : confirmed t.messages = confirmed s.messages ++ [id])
    (hnewer : t.flags.hasMoreNewer = s.flags.hasMoreNewer) (hmore : t.flags.hasMore = s.flags.hasMore)
    (hpipeline : ∀ id' ∈ s.pipeline, id' = id ∨ id' ∈ t.pipeline) (hloads : t.loads = s.loads) :
    t.Contiguous currentUserId conversationId := by
  have hsorted : (s.visible currentUserId conversationId).Pairwise (· < ·) := visible_sorted hsound
  have hvisible : t.visible currentUserId conversationId = s.visible currentUserId conversationId := by
    rw [visible, hview]
    rfl
  have hpages : ∀ isKind id', s.InPage isKind id' → t.InPage isKind id' := fun isKind id' hid' => by
    rw [InPage, hloads]
    exact hid'
  have hold : ∀ {w}, w ∈ confirmed s.messages → w ∈ confirmed t.messages := fun hw =>
    hconfirmed ▸ List.mem_append_left _ hw
  have hlast : id ∈ confirmed t.messages := hconfirmed ▸ List.mem_append_right _ (.head _)
  refine ⟨?_, fun _ hflag v hv => ?_, fun _ hflag v hv => ?_⟩
  · rw [hconfirmed, hvisible]
    refine List.infix_append_of_sorted hsorted h.segment ((List.singleton_infix_iff _ _).mpr hnext.visible)
      (fun w hw x hx => ?_) fun v hv hafter hbefore => ?_
    · rw [List.mem_singleton.mp hx]
      exact hnext.after w hw
    · obtain ⟨w, hw, hwv⟩ := hafter
      obtain ⟨x, hx, hvx⟩ := hbefore
      rw [List.mem_singleton.mp hx] at hvx
      rcases hvx.lt_or_eq with hlt | rfl
      · obtain ⟨-, -, hclosed⟩ := (List.infix_iff_of_sorted hsorted).mp h.segment
        rcases hnext.adjacent v hv hlt with ⟨w', hw', hle⟩ | ⟨hempty, -⟩
        · exact .inl (hclosed v hv w hw w' hw' hwv hle)
        · rw [hempty] at hw
          cases hw
      · exact .inr (.head _)
  · rw [hvisible] at hv
    rcases le_or_gt v id with hle | hlt
    · exact .inr ⟨id, hlast, hle⟩
    · have hcoming : (v ∈ s.pipeline ∨ s.InPage LoadKind.isNewer v) ∨ ∃ w ∈ confirmed s.messages, v ≤ w := by
        by_cases hf : s.Filled
        · exact h.newest hf (hnewer ▸ hflag) v hv
        · exact .inl (.inl (hnext.first hf v hv hlt))
      rcases hcoming with (hin | hin) | ⟨w, hw, hle⟩
      · exact .inl (.inl ((hpipeline v hin).resolve_left hlt.ne'))
      · exact .inl (.inr (hpages _ v hin))
      · exact .inr ⟨w, hold hw, hle⟩
  · rw [hvisible] at hv
    rcases le_or_gt id v with hle | hlt
    · exact .inr ⟨id, hlast, hle⟩
    · rcases hnext.adjacent v hv hlt with ⟨w, hw, -⟩ | ⟨-, hflag'⟩
      · have hne : confirmed s.messages ≠ [] := List.ne_nil_of_mem hw
        rcases h.oldest (.inr hne) (hmore ▸ hflag) v hv with (⟨hempty, -⟩ | hin) | ⟨w', hw', hle⟩
        · exact absurd hempty hne
        · exact .inl (.inr (hpages _ v hin))
        · exact .inr ⟨w', hold hw', hle⟩
      · cases (hmore ▸ hflag).symm.trans hflag'

theorem step_handle {j : Nat} {live : Live} (hlive : s.handlers[j]? = some live) :
    s.step currentUserId conversationId (.handle j) =
      { s with
        handlers := s.handlers.eraseIdx j
        messages := (placeLive currentUserId live s.messages).1
        flags.hasMoreNewer := s.flags.hasMoreNewer && !(placeLive currentUserId live s.messages).2 } := by
  rw [step, hlive]

theorem good_handle {j : Nat} (h : s.Good currentUserId conversationId)
    (he : s.Enabled currentUserId conversationId (.handle j)) (ht : s.Timely currentUserId conversationId (.handle j)) :
    (s.step currentUserId conversationId (.handle j)).Good currentUserId conversationId := by
  obtain ⟨live, hlive⟩ := Option.isSome_iff_exists.mp he
  have hin : live ∈ s.handlers := List.mem_of_getElem? hlive
  obtain ⟨id, hid⟩ := Option.isSome_iff_exists.mp (h.1.announced live (List.mem_append_right _ hin))
  have hrest : ∀ id' ∈ s.pipeline, id' = id ∨ id' ∈ (s.inbox ++ s.handlers.eraseIdx j).filterMap (·.msg.id) := by
    intro id' hid'
    obtain ⟨live', hlive', heq⟩ := List.mem_filterMap.mp hid'
    rcases List.mem_append.mp hlive' with hlive' | hlive'
    · exact .inr (List.mem_filterMap.mpr ⟨live', List.mem_append_left _ hlive', heq⟩)
    · rcases eq_or_mem_eraseIdx hlive hlive' with rfl | hlive'
      · exact .inl (Option.some.inj (heq.symm.trans hid))
      · exact .inr (List.mem_filterMap.mpr ⟨live', List.mem_append_right _ hlive', heq⟩)
  have hstays : ∀ live' ∈ s.inbox ++ s.handlers.eraseIdx j, live' ∈ s.inbox ++ s.handlers := fun live' hlive' =>
    (List.mem_append.mp hlive').elim (fun hold => List.mem_append_left _ hold)
      fun hold => List.mem_append_right _ (List.mem_of_mem_eraseIdx hold)
  rw [step_handle hlive]
  by_cases hmem : id ∈ confirmed s.messages
  · rw [placeLive_of_mem hid hmem]
    refine ⟨h.1.keep rfl hstays (fun m hm _ => .inl hm) (fun m hm => .inl hm) (fun load hload => .inl hload),
      h.2.keep rfl h.2.segment (List.Subset.refl _) (fun hf => hf) (Bool.and_true _) rfl (fun _ id' hid' => ?_)
        fun _ id' hid' => ?_⟩
    · rcases hid' with hid' | hid'
      · rcases hrest id' hid' with rfl | hid'
        · exact .inr hmem
        · exact .inl (.inl hid')
      · exact .inl (.inr hid')
    · rcases hid' with ⟨hempty, -⟩ | hid'
      · rw [hempty] at hmem
        cases hmem
      · exact .inl (.inr hid')
  · obtain ⟨hnext, hend⟩ := (ht live hlive id hid).resolve_left hmem
    obtain ⟨hconfirmed, hflag, hunconfirmed⟩ := placeLive_of_not_mem hid hmem h.1.own hend
    refine ⟨h.1.keep rfl hstays (fun m hm hnone => .inl (hunconfirmed m hm hnone)) (fun m hm => .inl hm)
      (fun load hload => .inl hload), h.2.next h.1.view hnext rfl hconfirmed hflag rfl hrest rfl⟩

theorem good_optimistic {m : Message} (h : s.Good currentUserId conversationId)
    (he : s.Enabled currentUserId conversationId (.optimistic m)) :
    (s.step currentUserId conversationId (.optimistic m)).Good currentUserId conversationId := by
  obtain ⟨hnone, hown⟩ := he
  have hconfirmed : confirmed (s.step currentUserId conversationId (.optimistic m)).messages = confirmed s.messages := by
    change confirmed (s.messages ++ [m]) = _
    have hnil : confirmed [m] = [] := confirmed_eq_nil fun m' hm' => by rw [List.mem_singleton.mp hm']; exact hnone
    rw [confirmed_append, hnil, List.append_nil]
  refine ⟨h.1.keep rfl (fun _ hlive => hlive) (fun m' hm' _ => ?_) (fun m hm => .inl hm) (fun load hload => .inl hload),
    h.2.keep rfl (hconfirmed ▸ h.2.segment) (hconfirmed ▸ List.Subset.refl _) (fun hf => ?_) rfl rfl
      (fun _ id hid => .inl hid) fun _ id hid => .inl (hconfirmed ▸ hid)⟩
  · exact (List.mem_append.mp hm').imp_right fun hnew => by rw [List.mem_singleton.mp hnew]; exact hown
  · rw [Filled, hconfirmed] at hf
    exact hf

theorem good_render (h : s.Good currentUserId conversationId) :
    (s.step currentUserId conversationId .render).Good currentUserId conversationId :=
  h.keep rfl rfl rfl rfl rfl (fun _ => Iff.rfl) (fun _ hm => .inr hm) (fun _ hload => .inl hload) fun _ _ hid => hid

theorem good_openConversation (h : s.Good currentUserId conversationId) :
    (s.step currentUserId conversationId .openConversation).Good currentUserId conversationId := by
  have hempty : ({ s with
      messages := []
      flags := { s.flags with hasMoreNewer := false }
      loads := s.loads.filter fun load => load.kind ≠ .initial ∨ load.received
      loaded := false } : Window).Good currentUserId conversationId := by
    refine ⟨h.1.keep rfl (fun _ hlive => hlive) (fun m hm _ => by cases hm) (fun m hm => .inl hm)
      (fun load hload => .inl (List.mem_of_mem_filter hload)), List.nil_infix, fun hf => ?_, fun hf => ?_⟩
    · exact absurd rfl (hf.resolve_left Bool.false_ne_true)
    · exact absurd rfl (hf.resolve_left Bool.false_ne_true)
  exact hempty.request fun c hc => by cases hc

end Window

end Vesper.Chat
