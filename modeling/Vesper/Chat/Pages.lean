import Vesper.Lib.Segments
import Vesper.Server.Reads

/-!
# Pages of a history

What a member of a conversation can see of it, in the order of the identifiers, and how the pages of
thirty that the server returns lie in it.
-/

namespace Vesper.Chat
open Server

/-! ## The history and its pages -/

/-- What `useMessages` asks a page for. `more` is `loadMoreMessages`, `newer` is `loadNewerMessages`,
`around` is `jumpToMessage` and `latest` is `resetToLatest`. -/
inductive LoadKind
  | initial
  | more (cursor : Option MessageId)
  | newer (after : Option MessageId)
  | around (messageId : MessageId)
  | latest
  deriving DecidableEq, Repr

/-- The server at a moment. -/
structure View where
  db : Database
  now : Time

namespace View
variable (v : View) (userId : UserId) (conversationId : ConversationId)

def clearedAt : Option Time := (v.db.member? conversationId userId).bind (·.clearedAt)

/-- The history that the member can see. -/
def visible : List MessageId :=
  (v.db.oldest fun m => m.conversationId = conversationId && notCleared (v.clearedAt userId conversationId) m &&
    scheduledFilter v.now userId m).map (·.id)

/-- The page that the server returns. -/
def page (kind : LoadKind) : List Server.Message :=
  let page := v.db.page v.now userId conversationId (v.clearedAt userId conversationId)
  match kind with
  | .initial | .latest => page none none none
  | .more cursor => page cursor none none
  | .newer after => page none after none
  | .around messageId => page none none (some messageId)

/-- Identifiers are unique, and start at one. -/
structure Sound : Prop where
  keyed : v.db.Keyed
  positive : ∀ m ∈ v.db.messages, m.id ≠ 0

instance : Decidable v.Sound :=
  decidable_of_iff
    (((v.db.messages.map (·.id)).Nodup ∧ ∀ m ∈ v.db.messages, m.id < v.db.nextMessageId) ∧
      ∀ m ∈ v.db.messages, m.id ≠ 0)
    ⟨fun ⟨⟨h₁, h₂⟩, h₃⟩ => ⟨⟨h₁, h₂⟩, h₃⟩, fun ⟨⟨h₁, h₂⟩, h₃⟩ => ⟨⟨h₁, h₂⟩, h₃⟩⟩

end View

/-- How a page lies in the history: without gaps, up to the end that was asked for. A short one is all that
there was. The identifiers of an older page need not be in it: the first message that was asked for is. -/
def Fits (visible page : List MessageId) : LoadKind → Prop
  | .initial | .latest => page <:+: visible ∧ (page.length < 30 → ∀ v ∈ visible, page = [] ∨ ∃ x ∈ page, x ≤ v)
  | .around _ => page <:+: visible
  | .newer after => ∀ a ∈ after, page <:+: visible ∧ (∀ x ∈ page, a < x) ∧
      ∀ v ∈ visible, a < v → (∃ x ∈ page, v ≤ x) → v ∈ page
  | .more cursor => ∀ c ∈ cursor, c ∈ visible ∧ page.Pairwise (· < ·) ∧ (∀ x ∈ page, x < c) ∧
      ∀ v ∈ visible, v < c → page.length < 30 ∨ (∃ x ∈ page, x ≤ v) → v ∈ page

/-! ## How pages lie in the history -/

section
variable {v : View} {userId : UserId} {conversationId : ConversationId}

theorem visible_sorted (hv : v.Sound) : (v.visible userId conversationId).Pairwise (· < ·) :=
  List.pairwise_map.mpr (oldest_sorted hv.keyed _)

theorem mem_visible {id : MessageId} :
    id ∈ v.visible userId conversationId ↔ ∃ m ∈ v.db.messages, (m.conversationId = conversationId ∧
      notCleared (v.clearedAt userId conversationId) m ∧ scheduledFilter v.now userId m) ∧ m.id = id := by
  simp only [View.visible, List.mem_map, mem_oldest, Bool.and_eq_true, decide_eq_true_eq, and_assoc]

/-- The first thirty of a list that runs down. -/
theorem last_page {l : List Server.Message} (hl : l.Pairwise fun a b => b.id < a.id) :
    (((l.take 30).reverse.map (·.id)).Pairwise (· < ·)) ∧
      (∀ id ∈ (l.take 30).reverse.map (·.id), ∃ m ∈ l, m.id = id) ∧
      ∀ m ∈ l, (((l.take 30).reverse.map (·.id)).length < 30 ∨ ∃ x ∈ (l.take 30).reverse.map (·.id), x ≤ m.id) →
        m.id ∈ (l.take 30).reverse.map (·.id) := by
  refine ⟨?_, fun id hid => ?_, fun m hm h => ?_⟩
  · exact List.pairwise_map.mpr (List.pairwise_reverse.mpr (hl.sublist (List.take_sublist ..)))
  · obtain ⟨m, hm, rfl⟩ := List.mem_map.mp hid
    exact ⟨m, List.mem_of_mem_take (List.mem_reverse.mp hm), rfl⟩
  · refine List.mem_map_of_mem (List.mem_reverse.mpr ?_)
    rcases List.mem_take_or_forall hl hm 30 with hin | hbefore
    · exact hin
    · rcases h with hshort | ⟨x, hx, hle⟩
      · simp only [List.length_map, List.length_reverse, List.length_take] at hshort
        rwa [List.take_of_length_le (by omega)]
      · obtain ⟨m', hm', rfl⟩ := List.mem_map.mp hx
        exact absurd hle (hbefore m' (List.mem_reverse.mp hm')).not_ge

/-- The last thirty messages of those that can be seen and meet a condition that is kept downwards. -/
theorem last_page_segment (hv : v.Sound) {q : Server.Message → Bool}
    (hq : ∀ m ∈ v.db.messages, q m → m.id ∈ v.visible userId conversationId)
    (hdown : ∀ id ∈ v.visible userId conversationId, ∀ m ∈ v.db.messages, q m → id ≤ m.id →
      ∃ m' ∈ v.db.messages, q m' ∧ m'.id = id) :
    ((v.db.newest q).take 30).reverse.map (·.id) <:+: v.visible userId conversationId := by
  obtain ⟨hsorted, hmem, hclosed⟩ := last_page (newest_sorted hv.keyed q)
  refine (List.infix_iff_of_sorted (visible_sorted hv)).mpr ⟨hsorted, fun id hid => ?_, fun id hid a ha b hb hle hle' => ?_⟩
  · obtain ⟨m, hm, rfl⟩ := hmem id hid
    obtain ⟨hm, hqm⟩ := mem_newest.mp hm
    exact hq m hm hqm
  · obtain ⟨m, hm, rfl⟩ := hmem b hb
    obtain ⟨hm, hqm⟩ := mem_newest.mp hm
    obtain ⟨m', hm', hqm', rfl⟩ := hdown id hid m hm hqm hle'
    exact hclosed m' (mem_newest.mpr ⟨hm', hqm'⟩) (.inr ⟨a, ha, hle⟩)

theorem latest_fits (hv : v.Sound) :
    Fits (v.visible userId conversationId) ((v.page userId conversationId .latest).map (·.id)) .latest := by
  have hq : ∀ m ∈ v.db.messages, ((m.conversationId = conversationId && scheduledFilter v.now userId m) &&
      notCleared (v.clearedAt userId conversationId) m) = true ↔ m.conversationId = conversationId ∧
        notCleared (v.clearedAt userId conversationId) m ∧ scheduledFilter v.now userId m := by
    intro m _
    simp only [Bool.and_eq_true, decide_eq_true_eq]
    tauto
  refine ⟨last_page_segment hv (fun m hm hqm => mem_visible.mpr ⟨m, hm, (hq m hm).mp hqm, rfl⟩) fun id hid m hm _ _ => ?_,
    fun hshort id hid => ?_⟩
  · obtain ⟨m', hm', hin, rfl⟩ := mem_visible.mp hid
    exact ⟨m', hm', (hq m' hm').mpr hin, rfl⟩
  · obtain ⟨m', hm', hin, rfl⟩ := mem_visible.mp hid
    obtain ⟨-, -, hclosed⟩ := last_page (newest_sorted hv.keyed _)
    exact .inr ⟨m'.id, hclosed m' (mem_newest.mpr ⟨hm', (hq m' hm').mpr hin⟩) (.inl hshort), le_rfl⟩

theorem around_fits (hv : v.Sound) (messageId : MessageId) :
    Fits (v.visible userId conversationId) ((v.page userId conversationId (.around messageId)).map (·.id))
      (.around messageId) := by
  refine last_page_segment hv (fun m hm hqm => ?_) fun id hid m hm hqm hle => ?_
  · simp only [Bool.and_eq_true, decide_eq_true_eq] at hqm
    exact mem_visible.mpr ⟨m, hm, ⟨hqm.1.1.1, hqm.1.2, hqm.2⟩, rfl⟩
  · simp only [Bool.and_eq_true, decide_eq_true_eq] at hqm
    obtain ⟨m', hm', ⟨hc, hcleared, hvisible⟩, rfl⟩ := mem_visible.mp hid
    exact ⟨m', hm', by simp [hc, hcleared, hvisible, hle.trans hqm.1.1.2], rfl⟩

theorem newer_fits (hv : v.Sound) (after : Option MessageId) :
    Fits (v.visible userId conversationId) ((v.page userId conversationId (.newer after)).map (·.id))
      (.newer after) := by
  rintro a rfl
  have hsorted := oldest_sorted hv.keyed fun m => decide (m.conversationId = conversationId) && decide (a < m.id) &&
    notCleared (v.clearedAt userId conversationId) m && scheduledFilter v.now userId m
  have hmem : ∀ x ∈ (v.page userId conversationId (.newer (some a))).map (·.id),
      x ∈ v.visible userId conversationId ∧ a < x := by
    intro x hx
    obtain ⟨m, hm, rfl⟩ := List.mem_map.mp hx
    obtain ⟨hm, hqm⟩ := mem_oldest.mp (List.mem_of_mem_take hm)
    simp only [Bool.and_eq_true, decide_eq_true_eq] at hqm
    exact ⟨mem_visible.mpr ⟨m, hm, ⟨hqm.1.1.1, hqm.1.2, hqm.2⟩, rfl⟩, hqm.1.1.2⟩
  have hclosed : ∀ id ∈ v.visible userId conversationId, a < id →
      (∃ x ∈ (v.page userId conversationId (.newer (some a))).map (·.id), id ≤ x) →
        id ∈ (v.page userId conversationId (.newer (some a))).map (·.id) := by
    rintro id hid hlt ⟨x, hx, hle⟩
    obtain ⟨m, hm, ⟨hc, hcleared, hvisible⟩, rfl⟩ := mem_visible.mp hid
    have hin : m ∈ v.db.oldest fun m => decide (m.conversationId = conversationId) && decide (a < m.id) &&
        notCleared (v.clearedAt userId conversationId) m && scheduledFilter v.now userId m :=
      mem_oldest.mpr ⟨hm, by simp [hc, hcleared, hvisible, hlt]⟩
    rcases List.mem_take_or_forall hsorted hin 30 with hin | hbefore
    · exact List.mem_map_of_mem hin
    · obtain ⟨m', hm', rfl⟩ := List.mem_map.mp hx
      exact absurd hle (hbefore m' hm').not_ge
  refine ⟨(List.infix_iff_of_sorted (visible_sorted hv)).mpr ⟨?_, fun x hx => (hmem x hx).1,
    fun id hid x hx y hy hle hle' => ?_⟩, fun x hx => (hmem x hx).2, hclosed⟩
  · exact List.pairwise_map.mpr (hsorted.sublist (List.take_sublist ..))
  · exact hclosed id hid ((hmem x hx).2.trans_le hle) ⟨y, hy, hle'⟩

theorem more_fits (hv : v.Sound) (cursor : Option MessageId) (hcursor : ∀ c ∈ cursor, c ∈ v.visible userId conversationId) :
    Fits (v.visible userId conversationId) ((v.page userId conversationId (.more cursor)).map (·.id))
      (.more cursor) := by
  rintro c rfl
  obtain ⟨first, hfirst, ⟨hc, -, hvisible⟩, hid⟩ := mem_visible.mp (hcursor c rfl)
  have hpositive : c ≠ 0 := hid ▸ hv.positive first hfirst
  have hpage : v.page userId conversationId (.more (some c)) =
      ((((v.db.newest fun m => (decide (m.conversationId = conversationId) && scheduledFilter v.now userId m) &&
        decide (m.id ≤ c)).drop 1).take 30).reverse) := by
    have hsome : (v.db.message? c).isSome := by
      rw [← hid, hv.keyed.message? hfirst]
      rfl
    simp only [View.page, Database.page, Option.filter_some, decide_eq_true hpositive, if_true,
      Database.pageAfter, if_pos hsome]
  have hsorted := newest_sorted hv.keyed fun m => (decide (m.conversationId = conversationId) &&
    scheduledFilter v.now userId m) && decide (m.id ≤ c)
  obtain ⟨hascending, hmem, hclosed⟩ := last_page (hsorted.sublist (List.drop_sublist 1 _))
  rw [hpage]
  refine ⟨hcursor c rfl, hascending, fun x hx => ?_, fun id hin hlt hor => ?_⟩
  · obtain ⟨m, hm, rfl⟩ := hmem x hx
    obtain ⟨m', hm', hlt⟩ := lt_of_mem_drop_one hsorted hm
    have hle := (mem_newest.mp hm').2
    simp only [Bool.and_eq_true, decide_eq_true_eq] at hle
    exact hlt.trans_le hle.2
  · obtain ⟨m, hm, ⟨hc', -, hvisible'⟩, rfl⟩ := mem_visible.mp hin
    refine hclosed m (mem_drop_one hsorted (mem_newest.mpr ⟨hm, ?_⟩) (mem_newest.mpr ⟨hfirst, ?_⟩) ?_) hor
    · simp [hc', hvisible', hlt.le]
    · simp [hc, hvisible, hid]
    · exact hid ▸ hlt

theorem page_fits (hv : v.Sound) (kind : LoadKind)
    (hkind : ∀ c, kind = .more (some c) → c ∈ v.visible userId conversationId) :
    Fits (v.visible userId conversationId) ((v.page userId conversationId kind).map (·.id)) kind := by
  cases kind with
  | initial => exact latest_fits hv
  | more cursor => exact more_fits hv cursor fun c hc => hkind c (congrArg _ hc)
  | newer after => exact newer_fits hv after
  | around messageId => exact around_fits hv messageId
  | latest => exact latest_fits hv

/-- What was a page stays one while the history grows at its end. -/
theorem Fits.mono {visible visible' page : List MessageId} {kind : LoadKind} (h : Fits visible page kind)
    (hsorted : visible'.Pairwise (· < ·)) (hgrows : visible <+: visible') : Fits visible' page kind := by
  have hnew : ∀ id ∈ visible', id ∈ visible ∨ ∀ u ∈ visible, u < id := fun id hid => by
    by_cases hin : id ∈ visible
    · exact .inl hin
    · exact .inr fun u hu => List.lt_of_mem_of_prefix hsorted hgrows hu hid hin
  have hlatest : page <:+: visible ∧ (page.length < 30 → ∀ v ∈ visible, page = [] ∨ ∃ x ∈ page, x ≤ v) →
      page <:+: visible' ∧ (page.length < 30 → ∀ v ∈ visible', page = [] ∨ ∃ x ∈ page, x ≤ v) := by
    rintro ⟨hpart, hshort⟩
    refine ⟨hpart.trans hgrows.isInfix, fun hlength id hid => ?_⟩
    rcases hnew id hid with hin | hafter
    · exact hshort hlength id hin
    · cases page with
      | nil => exact .inl rfl
      | cons x page => exact .inr ⟨x, .head _, (hafter x (hpart.subset (.head _))).le⟩
  cases kind with
  | initial => exact hlatest h
  | latest => exact hlatest h
  | around messageId => exact h.trans hgrows.isInfix
  | newer after =>
    intro a ha
    obtain ⟨hpart, hlt, hclosed⟩ := h a ha
    refine ⟨hpart.trans hgrows.isInfix, hlt, fun id hid hafter hle => ?_⟩
    rcases hnew id hid with hin | hlater
    · exact hclosed id hin hafter hle
    · obtain ⟨x, hx, hle⟩ := hle
      exact absurd (hlater x (hpart.subset hx)) hle.not_gt
  | more cursor =>
    intro c hc
    obtain ⟨hin, hascending, hlt, hclosed⟩ := h c hc
    refine ⟨hgrows.subset hin, hascending, hlt, fun id hid hbefore => ?_⟩
    rcases hnew id hid with hold | hlater
    · exact hclosed id hold hbefore
    · exact absurd (hlater c hin) hbefore.not_gt

/-- The older page and the list are put together. -/
theorem older_segment {visible W page : List MessageId} {c : MessageId} (hsorted : visible.Pairwise (· < ·))
    (hW : W <:+: visible) (hpage : Fits visible page (.more (some c))) (hhead : W.head? = some c)
    (hin : ∀ x ∈ page, x ∈ visible) : page ++ W <:+: visible := by
  obtain ⟨-, hascending, hbefore, hclosed⟩ := hpage c rfl
  obtain ⟨hsortedW, -, hclosedW⟩ := (List.infix_iff_of_sorted hsorted).mp hW
  have hc : c ∈ W := List.mem_of_head? hhead
  have hfirst : ∀ w ∈ W, c ≤ w := by
    intro w hw
    obtain ⟨rest, rfl⟩ := List.head?_eq_some_iff.mp hhead
    rcases List.mem_cons.mp hw with rfl | hw
    · exact le_rfl
    · exact ((List.pairwise_cons.mp hsortedW).1 w hw).le
  refine List.infix_append_of_sorted hsorted ?_ hW (fun x hx w hw => (hbefore x hx).trans_le (hfirst w hw)) ?_
  · refine (List.infix_iff_of_sorted hsorted).mpr ⟨hascending, hin, fun v hv a ha b hb hav hvb => ?_⟩
    exact hclosed v hv (hvb.trans_lt (hbefore b hb)) (.inr ⟨a, ha, hav⟩)
  · rintro v hv ⟨x, hx, hxv⟩ ⟨w, hw, hvw⟩
    rcases lt_or_ge v c with hlt | hle
    · exact .inl (hclosed v hv hlt (.inr ⟨x, hx, hxv⟩))
    · exact .inr (hclosedW v hv c hc w hw hle hvw)

/-- The list and the newer page are put together. -/
theorem newer_segment {visible W page : List MessageId} {a : MessageId} (hsorted : visible.Pairwise (· < ·))
    (hW : W <:+: visible) (hpage : Fits visible page (.newer (some a))) (hlast : W.getLast? = some a) :
    W ++ page <:+: visible := by
  obtain ⟨hpart, hafter, hclosed⟩ := hpage a rfl
  obtain ⟨hsortedW, -, hclosedW⟩ := (List.infix_iff_of_sorted hsorted).mp hW
  have ha : a ∈ W := List.mem_of_getLast? hlast
  have hend : ∀ w ∈ W, w ≤ a := by
    intro w hw
    obtain ⟨rest, rfl⟩ := List.getLast?_eq_some_iff.mp hlast
    rcases List.mem_append.mp hw with hw | hw
    · exact ((List.pairwise_append.mp hsortedW).2.2 w hw a (.head _)).le
    · exact (List.mem_singleton.mp hw).le
  refine List.infix_append_of_sorted hsorted hW hpart (fun w hw x hx => (hend w hw).trans_lt (hafter x hx)) ?_
  rintro v hv ⟨w, hw, hwv⟩ ⟨x, hx, hvx⟩
  rcases lt_or_ge a v with hlt | hle
  · exact .inr (hclosed v hv hlt ⟨x, hx, hvx⟩)
  · exact .inl (hclosedW v hv w hw a ha hwv hle)

/-- The pages are what the server answers. -/
theorem returned_page {g : Gateway} {env : Environment} {cursor after around : Option MessageId} {response : Response}
    (h : g.answer env v.now userId (.getMessages conversationId cursor after around) = .ok response) :
    response.returned =
      (g.db.page v.now userId conversationId ((⟨g.db, v.now⟩ : View).clearedAt userId conversationId) cursor after
        around).map (·.id) := by
  rw [Gateway.answer, respond_getMessages] at h
  cases hmember : g.db.member? conversationId userId with
  | none =>
    rw [hmember] at h
    cases h
  | some member =>
    rw [hmember] at h
    cases h
    rw [returned_answerPage, View.clearedAt, hmember]
    rfl

end

end Vesper.Chat
