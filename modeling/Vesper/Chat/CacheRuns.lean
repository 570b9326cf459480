import Vesper.Chat.CacheHandlers

/-!
# Pages and the cache

The writes to the cache and the steps of a page keep it coherent; so does every run whose steps meet the condition.
-/

namespace Vesper.Chat
open Server (UserId DeviceId MessageId Text Time MessageKeyEnvelope trim)

namespace Transcript
variable {s t : Transcript} {decryption : Text → Text} {currentUserId : UserId} {id : MessageId} {text : Text}

/-! ## The cache -/

theorem Current.unique {text' : Text} (h : s.Current decryption id text) (h' : s.Current decryption id text') :
    text = text' := by
  obtain ⟨row, hrow, rfl⟩ := h
  obtain ⟨row', hrow', rfl⟩ := h'
  cases hrow.symm.trans hrow'
  rfl

/-- A plaintext is put into the cache. -/
theorem Good.put (h : s.Good decryption currentUserId) (hcurrent : s.Current decryption id text) :
    ({ s with cache := Function.update s.cache id (some text) } : Transcript).Good decryption currentUserId := by
  refine h.keep rfl (fun e he => .inl he) h.1.latest (fun id' text' htext => ?_) (fun id' text' htext => ?_)
    (fun w hw => .inl hw) (fun handler hh => .inl hh) (fun slot hslot => .inl hslot)
    fun m hm id hid hown hsettled => .inl ⟨hm, hsettled.requests, hsettled.inbox, hsettled.handlers⟩
  · by_cases hid : id' = id
    · subst hid
      have hself : Function.update s.cache id' (some text) id' = some text := Function.update_self ..
      cases hself.symm.trans htext
      exact .inr hcurrent
    · have hother : Function.update s.cache id (some text) id' = s.cache id' := Function.update_of_ne hid ..
      exact .inl (hother.symm.trans htext)
  · by_cases hid : id' = id
    · subst hid
      rw [(h.2.cached id' text' htext).unique hcurrent]
      exact Function.update_self ..
    · exact (Function.update_of_ne hid ..).trans htext

theorem good_write {k : Nat} (h : s.Good decryption currentUserId) :
    (s.step currentUserId (.write k)).Good decryption currentUserId := by
  rw [step]
  cases hw : s.writes[k]? with
  | none => exact h
  | some w =>
    have hput := h.put (h.1.writes w (List.mem_of_getElem? hw))
    refine hput.keep rfl (fun e he => .inl he) hput.1.latest (fun id text htext => .inl htext) (fun id text htext => htext)
      (fun w hw => .inl (List.mem_of_mem_eraseIdx hw)) (fun handler hh => .inl hh) (fun slot hslot => .inl hslot)
      fun m hm id hid hown hsettled => .inl ⟨hm, hsettled.requests, hsettled.inbox, hsettled.handlers⟩

/-! ## The list -/

theorem good_optimistic {m : Message} (h : s.Good decryption currentUserId)
    (he : s.Enabled decryption (.optimistic m)) :
    (s.step currentUserId (.optimistic m)).Good decryption currentUserId := by
  refine h.keep rfl (fun e he => .inl he) h.1.latest (fun id text htext => .inl htext) (fun id text htext => htext)
    (fun w hw => .inl hw) (fun handler hh => .inl hh) (fun slot hslot => .inl hslot)
    fun m' hm' id hid hown hsettled => ?_
  rcases List.mem_append.mp hm' with hm' | hm'
  · exact .inl ⟨hm', hsettled.requests, hsettled.inbox, hsettled.handlers⟩
  · cases List.mem_singleton.mp hm'
    cases hid.symm.trans he

theorem good_editMessage {content payload : Text} {now : Time} (h : s.Good decryption currentUserId) :
    (s.step currentUserId (.editMessage id content payload now)).Good decryption currentUserId := by
  refine h.keep rfl (fun e he => .inl he) h.1.latest (fun id text htext => .inl htext) (fun id text htext => htext)
    (fun w hw => .inl hw) (fun handler hh => .inl hh) (fun slot hslot => .inl hslot)
    fun m hm id' hid' hown hsettled => ?_
  rcases mem_editIn hm with ⟨hm, -⟩ | ⟨-, hid, -⟩
  · exact .inl ⟨hm, fun r hr => hsettled.requests r (List.mem_append_left _ hr), hsettled.inbox, hsettled.handlers⟩
  · cases hid.symm.trans hid'
    exact absurd rfl (hsettled.requests _ (List.mem_append_right _ (.head _)))

theorem good_render (h : s.Good decryption currentUserId) :
    (s.step currentUserId .render).Good decryption currentUserId :=
  h.keep rfl (fun _ he => .inl he) h.1.latest (fun _ _ htext => .inl htext) (fun _ _ htext => htext) (fun _ hw => .inl hw)
    (fun _ hh => .inl hh) (fun _ hslot => .inl hslot)
    fun _ hm _ _ _ hsettled => .inl ⟨hm, hsettled.requests, hsettled.inbox, hsettled.handlers⟩

theorem good_reload (h : s.Good decryption currentUserId) :
    (s.step currentUserId .reload).Good decryption currentUserId :=
  h.keep rfl (fun _ he => by cases he) trivial (fun _ _ htext => .inl htext) (fun _ _ htext => htext)
    (fun _ hw => by cases hw) (fun _ hh => by cases hh) (fun _ hslot => by cases hslot) fun _ hm => by cases hm

/-! ## Pages -/

theorem slotSound_start {raw : Message} (hknown : s.Known raw) : s.SlotSound decryption (.start raw) := by
  refine ⟨hknown, fun text htext => ?_, fun text hstage => ?_, fun hplain => ?_⟩
  · unfold Slot.saving Slot.start at htext
    split at htext
    · rename_i hstage
      dsimp only at hstage
      split at hstage
      · cases hstage
      · split at hstage
        · cases hstage
        · split at hstage <;> cases hstage
    · cases htext
  · unfold Slot.start at hstage
    dsimp only at hstage
    split at hstage
    · cases hstage
    · split at hstage
      · cases hstage
      · split at hstage <;> cases hstage
  · have hplain' : raw.isEncrypted = false := Bool.eq_false_iff.mpr hplain
    obtain ⟨hv3, hlooks⟩ := Bool.or_eq_false_iff.mp hplain'
    unfold Slot.start
    dsimp only
    rw [hv3, hlooks, Bool.and_false, if_neg Bool.false_ne_true, if_neg Bool.false_ne_true, if_neg Bool.false_ne_true]

theorem good_serve {placement : Placement} {ids : List MessageId} (h : s.Good decryption currentUserId) :
    (s.step currentUserId (.serve placement ids)).Good decryption currentUserId := by
  refine h.keep rfl (fun e he => .inl he) h.1.latest (fun id text htext => .inl htext) (fun id text htext => htext)
    (fun w hw => .inl hw) (fun handler hh => .inl hh) (fun slot hslot => ?_)
    fun m hm id hid hown hsettled => .inl ⟨hm, hsettled.requests, hsettled.inbox, hsettled.handlers⟩
  obtain ⟨load, hload, hslot⟩ := List.mem_flatMap.mp hslot
  rcases List.mem_append.mp hload with hload | hload
  · exact .inl (List.mem_flatMap.mpr ⟨load, hload, hslot⟩)
  · cases List.mem_singleton.mp hload
    obtain ⟨raw, hraw, rfl⟩ := List.mem_map.mp hslot
    obtain ⟨id, -, hid⟩ := List.mem_filterMap.mp hraw
    obtain ⟨row, hrow, rfl⟩ := Option.map_eq_some_iff.mp hid
    exact .inr (slotSound_start ⟨id, rfl, row, hrow, rfl⟩)

theorem Good.setSlot {j k : Nat} {load : PageLoad} {slot : Slot} (h : s.Good decryption currentUserId)
    (hload : s.loads[j]? = some load) (hslot : s.SlotSound decryption slot) :
    (s.setSlot j k load slot).Good decryption currentUserId := by
  refine h.keep rfl (fun e he => .inl he) h.1.latest (fun id text htext => .inl htext) (fun id text htext => htext)
    (fun w hw => .inl hw) (fun handler hh => .inl hh) (fun slot' hslot' => ?_)
    fun m hm id hid hown hsettled => .inl ⟨hm, hsettled.requests, hsettled.inbox, hsettled.handlers⟩
  obtain ⟨load', hload', hslot'⟩ := List.mem_flatMap.mp hslot'
  rcases List.mem_or_eq_of_mem_set hload' with hload' | rfl
  · exact .inl (List.mem_flatMap.mpr ⟨load', hload', hslot'⟩)
  · rcases List.mem_or_eq_of_mem_set hslot' with hslot' | rfl
    · exact .inl (List.mem_flatMap.mpr ⟨load, List.mem_of_getElem? hload, hslot'⟩)
    · exact .inr hslot

theorem mem_slots {j k : Nat} {load : PageLoad} {slot : Slot} (hload : s.loads[j]? = some load)
    (hslot : load.slots[k]? = some slot) : slot ∈ s.slots :=
  List.mem_flatMap.mpr ⟨load, List.mem_of_getElem? hload, List.mem_of_getElem? hslot⟩

theorem good_pageLoadPlaintext {j k : Nat} (h : s.Good decryption currentUserId)
    (he : s.Enabled decryption (.pageLoadPlaintext j k)) :
    (s.step currentUserId (.pageLoadPlaintext j k)).Good decryption currentUserId := by
  obtain ⟨load, hload, slot, hslot, hstage⟩ := he
  obtain ⟨hknown, -, -, hplain⟩ := h.1.slots slot (mem_slots hload hslot)
  have hencrypted : slot.raw.isEncrypted := by_contra fun hnot => by cases hstage.symm.trans (hplain hnot)
  have hstep : s.step currentUserId (.pageLoadPlaintext j k) =
      s.setSlot j k load (slot.loadPlaintext (slot.raw.id.bind s.cache)) := by
    rw [step, hload, Option.elim_some, hslot, Option.elim_some]
  rw [hstep]
  refine h.setSlot hload ⟨hknown, fun text htext => ?_, fun text hfound id hid => ?_, fun hnot => absurd hencrypted hnot⟩
  · cases hcached : slot.raw.id.bind s.cache <;> rw [hcached] at htext <;> cases htext
  · cases hcached : slot.raw.id.bind s.cache with
    | none =>
      rw [hcached] at hfound
      cases hfound
    | some cached =>
      rw [hcached] at hfound
      cases hfound
      obtain ⟨id', hid', hcache⟩ := Option.bind_eq_some_iff.mp hcached
      cases hid'.symm.trans hid
      exact hcache

theorem good_pageDecrypted {j k : Nat} {plain : Option Text} (h : s.Good decryption currentUserId)
    (he : s.Enabled decryption (.pageDecrypted j k plain))
    (ht : s.Consistent decryption currentUserId (.pageDecrypted j k plain)) :
    (s.step currentUserId (.pageDecrypted j k plain)).Good decryption currentUserId := by
  obtain ⟨load, hload, slot, hslot, hstage, -⟩ := he
  obtain ⟨hknown, -, -, hplain⟩ := h.1.slots slot (mem_slots hload hslot)
  have hencrypted : slot.raw.isEncrypted := by_contra fun hnot => by cases hstage.symm.trans (hplain hnot)
  have hstep : s.step currentUserId (.pageDecrypted j k plain) = s.setSlot j k load (slot.decrypted plain) := by
    rw [step, hload, Option.elim_some, hslot, Option.elim_some]
  rw [hstep]
  refine h.setSlot hload ⟨hknown, fun text htext id hid => ?_, fun text hfound => ?_, fun hnot => absurd hencrypted hnot⟩
  · cases hsaved : slot.raw.saved plain with
    | none =>
      rw [Slot.saving, Slot.decrypted, hsaved] at htext
      cases htext
    | some text' =>
      rw [Slot.saving, Slot.decrypted, hsaved] at htext
      cases htext
      obtain ⟨rfl, hunedited⟩ := ht load hload slot hslot text hsaved
      exact current_of_unedited hknown hunedited id hid
  · rw [Slot.decrypted] at hfound
    cases hsaved : slot.raw.saved plain <;> rw [hsaved] at hfound <;> cases hfound

theorem good_pageSavePlaintext {j k : Nat} (h : s.Good decryption currentUserId) :
    (s.step currentUserId (.pageSavePlaintext j k)).Good decryption currentUserId := by
  rw [step]
  cases hload : s.loads[j]? with
  | none => exact h
  | some load =>
    rw [Option.elim_some]
    cases hslot : load.slots[k]? with
    | none => exact h
    | some slot =>
      rw [Option.elim_some]
      split
      · rename_i id plain hid hsaving
        have hsound := h.1.slots slot (mem_slots hload hslot)
        have hput := h.put (hsound.saving plain hsaving id hid)
        have hencrypted : slot.raw.isEncrypted := by_contra fun hnot => by
          rw [Slot.saving, hsound.plain hnot] at hsaving
          cases hsaving
        exact hput.setSlot hload ⟨hsound.known, (fun _ h => by cases h), (fun _ h => by cases h),
          fun hnot => absurd hencrypted hnot⟩
      · exact h

theorem mem_update {placement : Placement} {page prev : List Message} {m : Message}
    (h : m ∈ placement.update page prev) : m ∈ page ∨ m ∈ prev := by
  cases placement with
  | replace => exact .inl h
  | older => exact List.mem_append.mp (Window.mem_of_mem_deduplicate h)
  | newer => exact (List.mem_append.mp (Window.mem_of_mem_deduplicate h)).symm

theorem good_apply {j : Nat} (h : s.Good decryption currentUserId)
    (ht : s.Consistent decryption currentUserId (.apply j)) :
    (s.step currentUserId (.apply j)).Good decryption currentUserId := by
  rw [step]
  cases hload : s.loads[j]? with
  | none => exact h
  | some load =>
    rw [Option.elim_some]
    refine h.keep rfl (fun e he => .inl he) h.1.latest (fun id text htext => .inl htext) (fun id text htext => htext)
      (fun w hw => .inl hw) (fun handler hh => .inl hh) (fun slot hslot => ?_) fun m hm id hid hown hsettled => ?_
    · obtain ⟨load', hload', hslot⟩ := List.mem_flatMap.mp hslot
      exact .inl (List.mem_flatMap.mpr ⟨load', List.mem_of_mem_eraseIdx hload', hslot⟩)
    · have hbefore : s.Settled id := ⟨hsettled.requests, hsettled.inbox, hsettled.handlers⟩
      rcases mem_update hm with hpage | hold
      · obtain ⟨slot, hslot, hmessage⟩ := List.mem_filterMap.mp hpage
        obtain ⟨hknown, -, hfound, hplain⟩ := h.1.slots slot (List.mem_flatMap.mpr ⟨load, List.mem_of_getElem? hload, hslot⟩)
        have hraw : slot.raw.id = some id := by
          rw [← hid]
          cases hstage : slot.stage <;> rw [Slot.message?, hstage] at hmessage <;> cases hmessage <;> rfl
        rcases ht load hload slot hslot id hraw hown hbefore with hin | ⟨hcached, hfile⟩
        · rw [Slot.message?, hplain hin.1] at hmessage
          cases hmessage
          exact .inr (current_of_inPlain hknown hin id hraw)
        · cases hstage : slot.stage with
          | found cached =>
            rw [Slot.message?, hstage] at hmessage
            cases hmessage
            have hshown : slot.raw.shown cached = cached := by
              rw [Message.shown, Bool.eq_false_iff.mpr hfile, Bool.false_and]
              rfl
            rw [hshown]
            exact .inr (h.2.cached id cached (hfound cached hstage id hraw))
          | _ =>
            rw [Slot.isFound, hstage] at hcached
            cases hcached
      · exact .inl ⟨hold, hbefore⟩

theorem good_step {e : TranscriptEvent} (h : s.Good decryption currentUserId) (he : s.Enabled decryption e)
    (ht : s.Consistent decryption currentUserId e) : (s.step currentUserId e).Good decryption currentUserId := by
  cases e with
  | post id row isScheduled => exact good_post h he
  | announce id => exact good_announce h
  | edit id content now => exact good_edit h ht
  | acceptEdit j now => exact good_acceptEdit h ht
  | rejectEdit j => exact good_rejectEdit h ht
  | deliver => exact good_deliver h ht
  | loadPlaintext j => exact good_loadPlaintext h
  | decrypted j plain => exact good_decrypted h ht
  | place j => exact good_place h ht
  | write k => exact good_write h
  | optimistic m => exact good_optimistic h he
  | editMessage id content payload now => exact good_editMessage h
  | render => exact good_render h
  | serve placement ids => exact good_serve h
  | pageLoadPlaintext j k => exact good_pageLoadPlaintext h he
  | pageDecrypted j k plain => exact good_pageDecrypted h he ht
  | pageSavePlaintext j k => exact good_pageSavePlaintext h
  | apply j => exact good_apply h ht
  | reload => exact good_reload h

theorem good_start : start.Good decryption currentUserId := by
  refine ⟨⟨?_, trivial, ?_, ?_, ?_⟩, ?_, ?_⟩
  · exact fun e he => by cases he
  · exact fun handler hh => by cases hh
  · exact fun w hw => by cases hw
  · exact fun slot hslot => by cases hslot
  · exact fun id text htext => by cases htext
  · exact fun m hm => by cases hm

end Transcript

/-- The cache and the list are coherent throughout every run whose steps meet the condition. -/
theorem transcript_coherent (decryption : Text → Text) (currentUserId : UserId) {es : List TranscriptEvent}
    (hes : ((transcript decryption currentUserId).restrict (Transcript.Consistent · decryption currentUserId)).Allowed
      .start es) :
    (transcript decryption currentUserId).Throughout (Transcript.Coherent · decryption currentUserId) .start es := by
  refine Machine.throughout_restrict.mp (Machine.throughout_of_invariant
    (I := (Transcript.Good · decryption currentUserId)) (fun s e h he => ?_) (fun s h => h.2) Transcript.good_start hes)
  exact Transcript.good_step h he.1 he.2

/-! ## Two runs -/

def sampleCipher (u : UInt16) : Text := "v2:".toList.map (fun c => UInt16.ofNat c.toNat) ++ List.replicate 20 u

/-- The plaintext of a sample is its last unit. -/
def sampleDecryption (content : Text) : Text := content.drop 22

/-- A message of the other member is received, and one of the user is sent in plain, edited and loaded again. -/
def editedInPlain : List TranscriptEvent :=
  [.post 1 ⟨2, sampleCipher 65, none, none, [], none⟩ false, .deliver, .decrypted 0 (some [65]), .write 0, .place 0,
    .optimistic (.optimistic 1 [8] 0), .post 2 ⟨1, [8], none, none, [], none⟩ false, .render, .deliver, .place 0, .render,
    .editMessage 2 [9] [9] 5, .acceptEdit 0 5, .deliver, .reload, .serve .replace [1, 2], .pageLoadPlaintext 0 0,
    .apply 0]

theorem transcript_coherent_editedInPlain :
    (transcript sampleDecryption 1).Throughout (Transcript.Coherent · sampleDecryption 1) .start editedInPlain :=
  transcript_coherent sampleDecryption 1 (by decide)

/-- The other member edits a message that was received. -/
def editedByOther : List TranscriptEvent :=
  [.post 1 ⟨2, sampleCipher 65, none, none, [], none⟩ false, .deliver, .decrypted 0 (some [65]), .write 0, .place 0,
    .render, .edit 1 (sampleCipher 66) 5, .deliver, .decrypted 0 (some [66])]

/-- The old plaintext stays in the cache, though the edit was decrypted and is shown. -/
theorem cache_keeps_old :
    (transcript sampleDecryption 1).Allowed .start editedByOther ∧
      ((transcript sampleDecryption 1).exec .start editedByOther).messages.map (·.content) = [[66]] ∧
      ¬(transcript sampleDecryption 1).Throughout (Transcript.Coherent · sampleDecryption 1) .start editedByOther := by
  refine ⟨by decide, by decide, fun h => ?_⟩
  obtain ⟨row, hrow, htext⟩ := h.last.cached 1 [65] (by decide)
  have hold : row.content = sampleCipher 66 := by
    have hsome : some row = some ⟨2, sampleCipher 66, none, none, [], some 5⟩ := hrow.symm.trans (by decide)
    cases hsome
    rfl
  rw [hold] at htext
  exact absurd htext (by decide)

end Vesper.Chat
