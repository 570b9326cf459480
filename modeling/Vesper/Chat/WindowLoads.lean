import Vesper.Chat.WindowSteps

/-!
# Pages in the window

A load, from its request to the page that is put in, keeps a window without gaps; so does every run whose steps
meet the condition.
-/

namespace Vesper.Chat
open Server

namespace Window
variable {currentUserId : UserId} {conversationId : ConversationId} {s t : Window} {id : MessageId}

/-- The flags that say that a load is under way are not read by what is shown. -/
theorem Good.flags (h : s.Good currentUserId conversationId) (flags : Flags)
    (hnewer : flags.hasMoreNewer = s.flags.hasMoreNewer) (hmore : flags.hasMore = s.flags.hasMore) :
    ({ s with flags } : Window).Good currentUserId conversationId :=
  h.keep rfl rfl hnewer hmore rfl (fun _ => Iff.rfl) (fun _ hm => .inl hm) (fun _ hload => .inl hload)
    fun _ _ hid => hid

theorem good_loadMoreMessages (h : s.Good currentUserId conversationId) :
    (s.step currentUserId conversationId .loadMoreMessages).Good currentUserId conversationId := by
  rw [step]
  split
  · exact h
  · split
    · exact h
    · rename_i first rest href
      have hflags := h.flags { s.flags with isLoadingMore := true } rfl rfl
      exact hflags.request fun c hc => h.1.ref first (href ▸ .head _) c (LoadKind.more.inj hc)

theorem good_loadNewerMessages (h : s.Good currentUserId conversationId) :
    (s.step currentUserId conversationId .loadNewerMessages).Good currentUserId conversationId := by
  rw [step]
  split
  · exact h
  · split
    · exact h
    · have hflags := h.flags { s.flags with isLoadingNewer := true } rfl rfl
      exact hflags.request fun c hc => by cases hc

theorem good_jumpToMessage {messageId : MessageId} (h : s.Good currentUserId conversationId) :
    (s.step currentUserId conversationId (.jumpToMessage messageId)).Good currentUserId conversationId := by
  rw [step]
  split
  · exact h
  · exact h.request fun c hc => by cases hc

theorem good_serve {j : Nat} (h : s.Good currentUserId conversationId)
    (he : s.Enabled currentUserId conversationId (.serve j)) :
    (s.step currentUserId conversationId (.serve j)).Good currentUserId conversationId := by
  obtain ⟨-, load, hload, hpage, -⟩ := he
  have hnoids : load.ids = [] := by
    rw [Load.ids, hpage]
    rfl
  rw [step, hload]
  refine h.keep rfl rfl rfl rfl rfl (fun _ => Iff.rfl) (fun m hm => .inl hm) (fun load' hload' => ?_) fun isKind id hid => ?_
  · refine (List.mem_or_eq_of_mem_set hload').imp_right fun heq => ?_
    have hcursor := (h.1.loads load (List.mem_of_getElem? hload)).cursor
    subst heq
    refine ⟨hcursor, fun page hpage => ?_⟩
    cases hpage
    have hids : ∀ ms : List Server.Message, confirmed (ms.map .ofServer) = ms.map (·.id) := fun ms => by
      rw [confirmed, List.filterMap_map]
      exact congrFun (List.filterMap_eq_map' (f := (·.id))) ms
    rw [hids, List.length_map, List.length_map]
    refine ⟨rfl, fun m hm => ?_, page_fits h.1.view load.kind hcursor⟩
    obtain ⟨m', -, rfl⟩ := List.mem_map.mp hm
    exact Option.some_ne_none _
  · obtain ⟨load', hload', hreceived, hkind, hid⟩ := hid
    rcases eq_or_mem_set _ hload hload' with rfl | hload'
    · rw [hnoids] at hid
      cases hid
    · exact ⟨load', hload', hreceived, hkind, hid⟩

theorem inPage_drop {j : Nat} {load : Load} {isKind : LoadKind → Bool} (hload : s.loads[j]? = some load)
    (h : s.InPage isKind id) :
    (s.drop j).InPage isKind id ∨ load.received ∧ isKind load.kind ∧ id ∈ load.ids := by
  obtain ⟨load', hload', hreceived, hkind, hid⟩ := h
  rcases eq_or_mem_eraseIdx hload hload' with rfl | hload'
  · exact .inr ⟨hreceived, hkind, hid⟩
  · exact .inl ⟨load', hload', hreceived, hkind, hid⟩

/-- The answer of a load is there. -/
def receiving (s : Window) (j : Nat) (load : Load) : Window :=
  { s with loads := s.loads.set j { load with received := true } }

theorem good_receiving {j : Nat} {load : Load} (h : s.Good currentUserId conversationId)
    (hload : s.loads[j]? = some load) : (s.receiving j load).Good currentUserId conversationId := by
  refine h.keep rfl rfl rfl rfl rfl (fun _ => Iff.rfl) (fun m hm => .inl hm) (fun load' hload' => ?_) fun isKind id hid => ?_
  · refine (List.mem_or_eq_of_mem_set hload').imp_right fun heq => ?_
    obtain ⟨hcursor, hpage⟩ := h.1.loads load (List.mem_of_getElem? hload)
    subst heq
    exact ⟨hcursor, hpage⟩
  · obtain ⟨load', hload', hreceived, hkind, hid⟩ := hid
    rcases eq_or_mem_set { load with received := true } hload hload' with rfl | hload'
    · exact ⟨_, List.mem_set (List.getElem?_eq_some_iff.mp hload).1 _, rfl, hkind, hid⟩
    · exact ⟨load', hload', hreceived, hkind, hid⟩

theorem inPage_receiving {j : Nat} {load : Load} {isKind : LoadKind → Bool} (hload : s.loads[j]? = some load)
    (hkind : isKind load.kind) (hid : id ∈ load.ids) : (s.receiving j load).InPage isKind id :=
  ⟨_, List.mem_set (List.getElem?_eq_some_iff.mp hload).1 _, rfl, hkind, hid⟩

theorem good_receive {j : Nat} (h : s.Good currentUserId conversationId)
    (he : s.Enabled currentUserId conversationId (.receive j)) (ht : s.Timely currentUserId conversationId (.receive j)) :
    (s.step currentUserId conversationId (.receive j)).Good currentUserId conversationId := by
  obtain ⟨load, hload, hpage, -⟩ := he
  obtain ⟨page, hpage⟩ := Option.isSome_iff_exists.mp hpage
  have hstep : s.step currentUserId conversationId (.receive j) = s.receive j load page := by
    rw [step, hload]
    dsimp only
    rw [hpage, Option.elim_some]
  have hgood := good_receiving h hload
  have hids : load.ids = confirmed page := by rw [Load.ids, hpage, Option.getD_some]
  obtain ⟨hlength, -, hfits⟩ := (h.1.loads load (List.mem_of_getElem? hload)).page page hpage
  have hlimit := ht load hload
  rw [hstep, receive]
  split
  · rename_i cursor hkind
    split
    · rename_i hshort
      refine ⟨hgood.1.keep rfl (fun _ hlive => hlive) (fun m hm _ => .inl hm) (fun m hm => .inl hm)
        (fun load hload => .inl hload), hgood.2.segment, hgood.2.newest, fun hf _ v hv => ?_⟩
      rw [hids, hlength, hkind] at hlimit
      obtain ⟨hsome, hplace⟩ := hlimit hshort hf
      obtain ⟨c, rfl⟩ := Option.isSome_iff_exists.mp hsome
      rw [hkind] at hfits
      obtain ⟨-, -, hbefore, hclosed⟩ := hfits c rfl
      rcases lt_or_ge v c with hlt | hle
      · have hv' : v ∈ load.ids := hids ▸ hclosed v hv hlt (.inl (hlength ▸ hshort))
        exact .inl (.inr (inPage_receiving hload (by rw [hkind]; rfl) hv'))
      · rcases hplace with hhead | ⟨hne, hstart⟩
        · exact .inr ⟨c, List.mem_of_head? hhead, hle⟩
        · obtain ⟨x, hx⟩ := List.exists_mem_of_ne_nil _ hne
          exact .inr ⟨x, hstart.subset hx, (hbefore x hx).le.trans hle⟩
    · exact hgood
  · rename_i after hkind
    have hreach : (confirmed page).length < 30 → s.Filled → ∀ v ∈ s.visible currentUserId conversationId,
        (v ∈ s.pipeline ∨ v ∈ confirmed page) ∨ ∃ w ∈ confirmed s.messages, v ≤ w := by
      intro hshort hf v hv
      rw [hids, hkind] at hlimit
      obtain ⟨hplace, hcurrent⟩ := hlimit hshort hf
      rcases hcurrent v hv with hin | ⟨x, hx, hle⟩
      · exact .inl (.inl hin)
      · rcases List.mem_append.mp hx with hx | hx
        · rcases hplace with ⟨hsome, hlast⟩ | hsub
          · obtain ⟨a, rfl⟩ := Option.isSome_iff_exists.mp hsome
            rw [hkind] at hfits
            obtain ⟨-, -, hclosed⟩ := hfits a rfl
            rcases lt_or_ge a v with hlt | hle'
            · exact .inl (.inr (hclosed v hv hlt ⟨x, hx, hle⟩))
            · exact .inr ⟨a, List.mem_of_getLast? hlast, hle'⟩
          · exact .inr ⟨x, hsub x hx, hle⟩
        · exact .inr ⟨x, hx, hle⟩
    split
    · rename_i hnil
      subst hnil
      refine ⟨hgood.1.keep rfl (fun _ hlive => hlive) (fun m hm _ => .inl hm) (fun m hm => .inl hm)
        (fun load hload => .inl (List.mem_of_mem_eraseIdx hload)), hgood.2.segment, fun hf _ v hv => ?_,
        fun hf hflag v hv => ?_⟩
      · rcases hreach (by decide) hf v hv with (hin | hin) | hle
        · exact .inl (.inl hin)
        · cases hin
        · exact .inr hle
      · have hload' : (s.receiving j load).loads[j]? = some { load with received := true } :=
          List.getElem?_set_self (List.getElem?_eq_some_iff.mp hload).1
        refine (hgood.2.oldest hf hflag v hv).imp_left fun hcoming => hcoming.imp_right fun hin => ?_
        rcases inPage_drop hload' hin with hin | ⟨-, hmore, -⟩
        · exact hin
        · rw [hkind] at hmore
          cases hmore
    · split
      · rename_i hshort
        refine ⟨hgood.1.keep rfl (fun _ hlive => hlive) (fun m hm _ => .inl hm) (fun m hm => .inl hm)
          (fun load hload => .inl hload), hgood.2.segment, fun hf _ v hv => ?_, hgood.2.oldest⟩
        rcases hreach (hlength ▸ hshort) hf v hv with (hin | hin) | hle
        · exact .inl (.inl hin)
        · exact .inl (.inr (inPage_receiving hload (by rw [hkind]; rfl) (hids ▸ hin)))
        · exact .inr hle
      · exact hgood
  · exact hgood
  · exact hgood
  · exact hgood

/-- The load is over, and everything of its page that is still waited for is in the list. -/
theorem good_done {j : Nat} {load : Load} (h : s.Good currentUserId conversationId) (hload : s.loads[j]? = some load)
    {messages : List Message} (flags : Flags)
    (hsegment : confirmed messages <:+: s.visible currentUserId conversationId)
    (hsub : confirmed s.messages ⊆ confirmed messages) (hnil : confirmed s.messages = [] → confirmed messages = [])
    (hown : ∀ m ∈ messages, m.id = none → m ∈ s.messages)
    (hnewer : flags.hasMoreNewer = s.flags.hasMoreNewer) (hmore : flags.hasMore = s.flags.hasMore)
    (hnewest : s.flags.hasMoreNewer = false → load.received → load.kind.isNewer → load.ids ⊆ confirmed messages)
    (holdest : s.flags.hasMore = false → load.received → load.kind.isMore → load.ids ⊆ confirmed messages) :
    ({ s.drop j with messages, flags } : Window).Good currentUserId conversationId := by
  refine ⟨h.1.keep rfl (fun _ hlive => hlive) (fun m hm hnone => .inl (hown m hm hnone)) (fun m hm => .inl hm)
    (fun load hload => .inl (List.mem_of_mem_eraseIdx hload)),
    h.2.keep rfl hsegment hsub (fun hf => hf.imp_right fun hne hempty => hne (hnil hempty)) hnewer hmore
      (fun hflag id hid => ?_) fun hflag id hid => ?_⟩
  · rcases hid with hid | hid
    · exact .inl (.inl hid)
    · rcases inPage_drop hload hid with hid | ⟨hreceived, hkind, hid⟩
      · exact .inl (.inr hid)
      · exact .inr (hnewest hflag hreceived hkind hid)
  · rcases hid with ⟨hempty, hid⟩ | hid
    · exact .inl (.inl ⟨hnil hempty, hid⟩)
    · rcases inPage_drop hload hid with hid | ⟨hreceived, hkind, hid⟩
      · exact .inl (.inr hid)
      · exact .inr (holdest hflag hreceived hkind hid)

theorem good_fail {j : Nat} (h : s.Good currentUserId conversationId)
    (he : s.Enabled currentUserId conversationId (.fail j)) (ht : s.Timely currentUserId conversationId (.fail j)) :
    (s.step currentUserId conversationId (.fail j)).Good currentUserId conversationId := by
  obtain ⟨load, hload⟩ := Option.isSome_iff_exists.mp he
  have hlimit := ht load hload
  have hdone : ∀ flags : Flags, flags.hasMoreNewer = s.flags.hasMoreNewer → flags.hasMore = s.flags.hasMore →
      ({ s.drop j with flags } : Window).Good currentUserId conversationId := by
    intro flags hnewer hmore
    refine good_done h hload _ h.2.segment (List.Subset.refl _) (fun hempty => hempty) (fun m hm _ => hm) hnewer hmore
      (fun hflag hreceived hkind => ?_) fun hflag hreceived hkind => ?_
    · cases hload' : load.kind with
      | newer after =>
        rw [hload'] at hlimit
        exact (hlimit hreceived).resolve_left (Bool.eq_false_iff.mp hflag)
      | _ => rw [hload'] at hkind; cases hkind
    · cases hload' : load.kind with
      | more cursor =>
        rw [hload'] at hlimit
        exact (hlimit hreceived).resolve_left (Bool.eq_false_iff.mp hflag)
      | _ => rw [hload'] at hkind; cases hkind
  have hstep : s.step currentUserId conversationId (.fail j) = (s.drop j).fail load.kind := by rw [step, hload]
  rw [hstep]
  cases load.kind with
  | more cursor => exact hdone { s.flags with isLoadingMore := false } rfl rfl
  | newer after => exact hdone { s.flags with isLoadingNewer := false } rfl rfl
  | _ => exact hdone s.flags rfl rfl

/-- A page takes the place of the list. -/
theorem good_replace {j : Nat} {load : Load} {page : List Message} (h : s.Good currentUserId conversationId)
    (flags : Flags) (hids : load.ids = confirmed page) (hconfirmed : ∀ m ∈ page, m.id ≠ none)
    (hpart : load.ids <:+: s.visible currentUserId conversationId)
    (hnewest : flags.hasMoreNewer = false → s.UpToDate currentUserId conversationId load.ids)
    (holdest : flags.hasMore = false → ∀ v ∈ s.visible currentUserId conversationId,
      (load.ids = [] ∧ v ∈ s.pipeline) ∨ ∃ x ∈ load.ids, x ≤ v) :
    ({ s.drop j with messages := page, flags, loaded := true } : Window).Good currentUserId conversationId := by
  rw [hids] at hpart hnewest holdest
  refine ⟨h.1.keep rfl (fun _ hlive => hlive) (fun m hm hnone => absurd hnone (hconfirmed m hm)) (fun m hm => .inl hm)
    (fun load hload => .inl (List.mem_of_mem_eraseIdx hload)), hpart, fun _ hflag v hv => ?_, fun _ hflag v hv => ?_⟩
  · exact (hnewest hflag v hv).imp_left .inl
  · exact (holdest hflag v hv).imp_left .inl

/-- A page that runs to the newest message takes the place of the list. -/
theorem good_replace_latest {j : Nat} {load : Load} {page : List Message} (h : s.Good currentUserId conversationId)
    (flags : Flags) (hids : load.ids = confirmed page) (hlength : (confirmed page).length = page.length)
    (hconfirmed : ∀ m ∈ page, m.id ≠ none) (hfits : Fits (s.visible currentUserId conversationId) load.ids .latest)
    (hnewest : flags.hasMoreNewer = false ∨ load.ids = [] → s.UpToDate currentUserId conversationId load.ids) :
    ({ s.drop j with messages := page, flags := { flags with hasMore := 30 ≤ page.length }, loaded := true } : Window).Good
      currentUserId conversationId := by
  obtain ⟨hpart, hshort⟩ := hfits
  refine good_replace h _ hids hconfirmed hpart (fun hflag => hnewest (.inl hflag)) fun hflag v hv => ?_
  have hlt : load.ids.length < 30 := by
    rw [hids, hlength]
    exact not_le.mp (of_decide_eq_false hflag)
  refine (hshort hlt v hv).imp_left fun hempty => ⟨hempty, (hnewest (.inr hempty) v hv).resolve_right ?_⟩
  rw [hempty]
  rintro ⟨x, hx, -⟩
  cases hx

theorem good_apply {j : Nat} (h : s.Good currentUserId conversationId)
    (he : s.Enabled currentUserId conversationId (.apply j)) (ht : s.Timely currentUserId conversationId (.apply j)) :
    (s.step currentUserId conversationId (.apply j)).Good currentUserId conversationId := by
  have hsorted : (s.visible currentUserId conversationId).Pairwise (· < ·) := visible_sorted h.1.view
  have hnodup : (confirmed s.messages).Nodup := ((hsorted.sublist h.2.segment.sublist).imp (·.ne) :)
  obtain ⟨load, hload, -⟩ := he
  cases hpage : load.page with
  | none =>
    have hstep : s.step currentUserId conversationId (.apply j) = s := by
      rw [step, hload]
      dsimp only
      rw [hpage, Option.elim_none]
    rw [hstep]
    exact h
  | some page =>
    have hstep : s.step currentUserId conversationId (.apply j) = (s.drop j).apply load.kind page := by
      rw [step, hload]
      dsimp only
      rw [hpage, Option.elim_some]
    have hids : load.ids = confirmed page := by rw [Load.ids, hpage, Option.getD_some]
    obtain ⟨hlength, hconfirmed, hfits⟩ := (h.1.loads load (List.mem_of_getElem? hload)).page page hpage
    have hlimit := ht load hload
    rw [hstep]
    cases hkind : load.kind with
    | initial =>
      rw [hkind, ← hids] at hfits
      rw [hkind] at hlimit
      exact good_replace_latest h s.flags hids hlength hconfirmed hfits hlimit
    | latest =>
      rw [hkind, ← hids] at hfits
      rw [hkind] at hlimit
      exact good_replace_latest h { s.flags with hasMoreNewer := false } hids hlength hconfirmed hfits
        fun _ => hlimit
    | around messageId =>
      rw [hkind, ← hids] at hfits
      exact good_replace h _ hids hconfirmed hfits (fun heq => by cases heq) fun heq => by cases heq
    | more cursor =>
      rw [hkind] at hfits hlimit
      have hnew : confirmed (deduplicateMessages (page ++ s.messages)) <:+: s.visible currentUserId conversationId ∧
          confirmed s.messages ⊆ confirmed (deduplicateMessages (page ++ s.messages)) ∧
          (confirmed s.messages = [] → confirmed (deduplicateMessages (page ++ s.messages)) = []) ∧
          load.ids ⊆ confirmed (deduplicateMessages (page ++ s.messages)) := by
        rcases hlimit with ⟨hsome, hhead, hin⟩ | hstart
        · obtain ⟨c, rfl⟩ := Option.isSome_iff_exists.mp hsome
          rw [hids] at hin
          have hpart := older_segment hsorted h.2.segment hfits hhead hin
          rw [confirmed_deduplicateMessages_of_nodup ((hsorted.sublist hpart.sublist).imp (·.ne)), hids]
          refine ⟨hpart, List.subset_append_right .., fun hempty => ?_, List.subset_append_left ..⟩
          rw [hempty] at hhead
          cases hhead
        · rw [hids] at hstart ⊢
          rw [confirmed_deduplicateMessages_of_start hnodup hstart]
          exact ⟨h.2.segment, List.Subset.refl _, fun hempty => hempty, hstart.subset⟩
      obtain ⟨hsegment, hsub, hnil, hpart⟩ := hnew
      refine good_done h hload { s.flags with isLoadingMore := false } hsegment hsub hnil (fun m hm hnone => ?_)
        rfl rfl (fun _ _ hnewer => ?_) fun _ _ _ => hpart
      · exact (List.mem_append.mp (mem_of_mem_deduplicate hm)).resolve_left fun hin => hconfirmed m hin hnone
      · rw [hkind] at hnewer
        cases hnewer
    | newer after =>
      rw [hkind] at hfits hlimit
      have hnew : confirmed (deduplicateMessages (s.messages ++ page)) <:+: s.visible currentUserId conversationId ∧
          confirmed s.messages ⊆ confirmed (deduplicateMessages (s.messages ++ page)) ∧
          (confirmed s.messages = [] → confirmed (deduplicateMessages (s.messages ++ page)) = []) ∧
          load.ids ⊆ confirmed (deduplicateMessages (s.messages ++ page)) := by
        rcases hlimit with ⟨hsome, hlast⟩ | hsub
        · obtain ⟨a, rfl⟩ := Option.isSome_iff_exists.mp hsome
          have hpart := newer_segment hsorted h.2.segment hfits hlast
          rw [confirmed_deduplicateMessages_of_nodup ((hsorted.sublist hpart.sublist).imp (·.ne)), hids]
          refine ⟨hpart, List.subset_append_left .., fun hempty => ?_, List.subset_append_right ..⟩
          rw [hempty] at hlast
          cases hlast
        · rw [hids] at hsub ⊢
          rw [confirmed_deduplicateMessages_of_subset hnodup hsub]
          exact ⟨h.2.segment, List.Subset.refl _, fun hempty => hempty, hsub⟩
      obtain ⟨hsegment, hsub, hnil, hpart⟩ := hnew
      refine good_done h hload { s.flags with isLoadingNewer := false } hsegment hsub hnil
        (fun m hm hnone => ?_) rfl rfl (fun _ _ _ => hpart) fun _ _ hmore => ?_
      · exact (List.mem_append.mp (mem_of_mem_deduplicate hm)).resolve_right fun hin => hconfirmed m hin hnone
      · rw [hkind] at hmore
        cases hmore

theorem good_step {e : WindowEvent} (h : s.Good currentUserId conversationId)
    (he : s.Enabled currentUserId conversationId e) (ht : s.Timely currentUserId conversationId e) :
    (s.step currentUserId conversationId e).Good currentUserId conversationId := by
  cases e with
  | server view announced => exact good_server h he ht
  | disconnect => exact good_disconnect h ht
  | deliver => exact good_deliver h
  | handle j => exact good_handle h he ht
  | optimistic m => exact good_optimistic h he
  | render => exact good_render h
  | openConversation => exact good_openConversation h
  | loadMoreMessages => exact good_loadMoreMessages h
  | loadNewerMessages => exact good_loadNewerMessages h
  | jumpToMessage messageId => exact good_jumpToMessage h
  | resetToLatest => exact h.request fun c hc => by cases hc
  | serve j => exact good_serve h he
  | receive j => exact good_receive h he ht
  | apply j => exact good_apply h he ht
  | fail j => exact good_fail h he ht

theorem good_start {view : View} (hview : view.Sound) : (start view).Good currentUserId conversationId := by
  refine ⟨⟨hview, ?_, ?_, ?_, ?_⟩, List.nil_infix, fun hf => ?_, fun hf => ?_⟩
  · exact fun live hlive => by cases hlive
  · exact fun m hm => by cases hm
  · exact fun m hm => by cases hm
  · exact fun load hload => by cases hload
  · exact absurd rfl (hf.resolve_left Bool.false_ne_true)
  · exact absurd rfl (hf.resolve_left Bool.false_ne_true)

end Window

/-- The list is a window without gaps throughout every run whose steps meet the condition. -/
theorem window_contiguous (currentUserId : UserId) (conversationId : ConversationId) {view : View}
    (hview : view.Sound) {es : List WindowEvent}
    (hes : ((window currentUserId conversationId view).restrict (Window.Timely · currentUserId conversationId)).Allowed
      (.start view) es) :
    (window currentUserId conversationId view).Throughout (Window.Contiguous · currentUserId conversationId)
      (.start view) es := by
  refine Machine.throughout_restrict.mp (Machine.throughout_of_invariant
    (I := (Window.Good · currentUserId conversationId)) (fun s e h he => ?_) (fun s h => h.2) (Window.good_start hview) hes)
  exact Window.good_step h he.1 he.2

/-! ## Two runs -/

def sampleMessage (id : MessageId) : Server.Message where
  id
  content := []
  createdAt := 0
  editedAt := none
  deletedAt := none
  scheduledAt := none
  fileUrl := none
  fileName := none
  fileType := none
  fileSize := none
  metadata := none
  forwardedFromId := none
  forwardedFromUserId := none
  senderId := 2
  conversationId := 7
  replyToId := none
  senderDeviceId := none
  reactions := []
  envelopes := []

/-- Two members, and what the other one has sent. -/
def sampleView (ids : List MessageId) : View where
  db :=
    { users := [], devices := [], conversations := []
      members := [⟨7, 1, .member, 0, 0, none, false, false⟩, ⟨7, 2, .member, 0, 0, none, false, false⟩]
      messages := ids.map sampleMessage
      pins := [], senderKeys := [], nextConversationId := 8, nextMessageId := 9, nextPinId := 1, removedFiles := [] }
  now := 0

def sampleLive (id : MessageId) : Live := ⟨.ofServer (sampleMessage id), false⟩

/-- A message comes in after the newest page has been put in. -/
def followed : List WindowEvent :=
  [.openConversation, .serve 0, .receive 0, .apply 0, .render, .server (sampleView [1, 2, 3]) [sampleLive 3], .deliver,
    .handle 0]

theorem window_contiguous_followed :
    (window 1 7 (sampleView [1, 2])).Throughout (Window.Contiguous · 1 7) (.start (sampleView [1, 2])) followed :=
  window_contiguous 1 7 (by decide) (by decide)

/-- A message comes in after a jump into the past. -/
def overlooked : List WindowEvent :=
  [.openConversation, .jumpToMessage 1, .serve 0, .serve 1, .receive 0, .apply 0, .render, .receive 0, .apply 0, .render,
    .server (sampleView [1, 2, 3]) [sampleLive 3], .deliver, .handle 0]

/-- The list leaves out the second message, and is held to reach the newest one. -/
theorem window_overlooks :
    (window 1 7 (sampleView [1, 2])).Allowed (.start (sampleView [1, 2])) overlooked ∧
      confirmed ((window 1 7 (sampleView [1, 2])).exec (.start (sampleView [1, 2])) overlooked).messages = [1, 3] ∧
      ¬(window 1 7 (sampleView [1, 2])).Throughout (Window.Contiguous · 1 7) (.start (sampleView [1, 2])) overlooked := by
  have hlist :
      confirmed ((window 1 7 (sampleView [1, 2])).exec (.start (sampleView [1, 2])) overlooked).messages = [1, 3] := by
    decide
  refine ⟨by decide, hlist, fun h => ?_⟩
  have hsegment := h.last.segment
  rw [hlist] at hsegment
  exact absurd hsegment (by decide)

end Vesper.Chat
