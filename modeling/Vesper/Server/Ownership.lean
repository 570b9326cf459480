import Vesper.Server.Steps

/-!
# Owners

Every group and channel starts with one owner. Two requests can change that: the owner who leaves,
and the owner who appoints somebody, or themselves, to a role. The roles are followed as a function of
the conversation and the user.
-/

namespace Vesper.Server
open Program

/-! ## Roles -/

namespace Ledger
variable (l : Ledger)

def roleOf (c : ConversationId) (u : UserId) : Option MemberRole := (l.seat? c u).map (·.role)

/-- The seats and the conversations fit together. -/
structure Sound : Prop where
  ids : (l.conversations.map (·.1)).Nodup
  below : ∀ conv ∈ l.conversations, conv.1 < l.nextConversationId
  keys : (l.seats.map fun s => (s.conversationId, s.userId)).Nodup
  seated : ∀ s ∈ l.seats, (l.type? s.conversationId).isSome
  direct : ∀ s ∈ l.seats, l.type? s.conversationId = some .direct → s.role = .member

/-- Every group and channel that has members has exactly one owner. -/
def SoleOwner : Prop := ∀ c, (∀ t ∈ l.type? c, t ≠ .direct) → (∃ u, (l.roleOf c u).isSome) →
  ∃! u, l.roleOf c u = some .owner

variable {l : Ledger} {c c' : ConversationId} {u u' : UserId}

theorem seat?_mem {s : Seat} (h : l.seat? c u = some s) :
    s ∈ l.seats ∧ s.conversationId = c ∧ s.userId = u :=
  ⟨List.mem_of_find?_eq_some h, by simpa using List.find?_some h⟩

theorem Sound.seat?_eq (h : l.Sound) {s : Seat} (hs : s ∈ l.seats) :
    l.seat? s.conversationId s.userId = some s := by
  rcases hfound : l.seat? s.conversationId s.userId with _ | s'
  · have := List.find?_eq_none.mp hfound s hs
    simp at this
  · obtain ⟨hmem, hc, hu⟩ := seat?_mem hfound
    exact congrArg some (List.inj_on_of_nodup_map h.keys hmem hs (by rw [hc, hu]))

theorem Sound.type?_eq (h : l.Sound) {t : ConversationType} (hc : (c, t) ∈ l.conversations) :
    l.type? c = some t := by
  unfold type?
  rcases hfound : l.conversations.find? (·.1 = c) with _ | conv
  · have := List.find?_eq_none.mp hfound (c, t) hc
    simp at this
  · have hid : conv.1 = c := by simpa using List.find?_some hfound
    rw [hfound, List.inj_on_of_nodup_map h.ids (List.mem_of_find?_eq_some hfound) hc hid]
    rfl

theorem type?_mem {t : ConversationType} (h : l.type? c = some t) : (c, t) ∈ l.conversations := by
  obtain ⟨conv, hfound, rfl⟩ := Option.map_eq_some_iff.mp h
  have hid : conv.1 = c := by simpa using List.find?_some hfound
  exact hid ▸ List.mem_of_find?_eq_some hfound

theorem Sound.type?_next (h : l.Sound) : l.type? l.nextConversationId = none := by
  rcases htype : l.type? l.nextConversationId with _ | t
  · rfl
  · exact absurd (h.below _ (type?_mem htype)) (Nat.lt_irrefl _)

theorem Sound.seat?_next (h : l.Sound) : l.seat? l.nextConversationId u = none := by
  rcases hseat : l.seat? l.nextConversationId u with _ | s
  · rfl
  · obtain ⟨hmem, hc, -⟩ := seat?_mem hseat
    have hsome := h.seated s hmem
    rw [hc, h.type?_next] at hsome
    cases hsome

/-! ## What the operations do to roles -/

theorem roleOf_join {now : Time} (hnone : l.seat? c u = none) :
    (l.join now c u).roleOf c' u' = if c' = c ∧ u' = u then some .member else l.roleOf c' u' := by
  unfold roleOf seat? join
  rw [List.find?_append]
  split
  case isTrue h =>
    obtain ⟨rfl, rfl⟩ := h
    rw [show l.seats.find? (fun s => s.conversationId = c' ∧ s.userId = u') = none from hnone]
    simp
  case isFalse h =>
    rw [List.find?_singleton, if_neg (by simpa using fun hc hu => h ⟨hc.symm, hu.symm⟩), Option.or_none]

theorem roleOf_leave :
    (l.leave c u).roleOf c' u' = if c' = c ∧ u' = u then none else l.roleOf c' u' := by
  unfold roleOf seat? leave
  rw [List.find?_filter]
  split
  case isTrue h =>
    obtain ⟨rfl, rfl⟩ := h
    rw [Option.map_eq_none_iff, List.find?_eq_none]
    intro s _
    grind
  case isFalse h =>
    congr 2
    funext s
    grind

theorem roleOf_appoint {role : MemberRole} : (l.appoint c u role).roleOf c' u' =
    if c' = c ∧ u' = u then (l.roleOf c u).map fun _ => role else l.roleOf c' u' := by
  unfold roleOf seat? appoint
  rw [List.find?_map]
  have hkey : ((fun s : Seat => decide (s.conversationId = c' ∧ s.userId = u')) ∘ fun s =>
      if s.conversationId = c ∧ s.userId = u then { s with role } else s) =
      fun s => decide (s.conversationId = c' ∧ s.userId = u') := by
    funext s
    simp only [Function.comp_apply]
    split <;> rfl
  rw [hkey, Option.map_map]
  split
  case isTrue h =>
    obtain ⟨rfl, rfl⟩ := h
    rw [Option.map_map]
    refine Option.map_congr fun s hs => ?_
    obtain ⟨-, hs⟩ := seat?_mem hs
    simp only [Function.comp_apply, if_pos hs]
  case isFalse h =>
    refine Option.map_congr fun s hs => ?_
    obtain ⟨-, rfl, rfl⟩ := seat?_mem hs
    simp only [Function.comp_apply, if_neg h]

/-- Seats that change in none of place, user and role. -/
theorem roleOf_map {f : Seat → Seat}
    (hf : ∀ s, (f s).conversationId = s.conversationId ∧ (f s).userId = s.userId ∧ (f s).role = s.role) :
    { l with seats := l.seats.map f }.roleOf c u = l.roleOf c u := by
  unfold roleOf seat?
  rw [List.find?_map]
  have hkey : (fun s : Seat => decide (s.conversationId = c ∧ s.userId = u)) ∘ f =
      fun s => decide (s.conversationId = c ∧ s.userId = u) := by
    funext s
    simp only [Function.comp_apply, (hf s).1, (hf s).2.1]
  rw [hkey, Option.map_map]
  refine Option.map_congr fun s _ => ?_
  exact (hf s).2.2

theorem roleOf_read {q : Seat → Bool} {now : Time} : (l.read q now).roleOf c u = l.roleOf c u := by
  refine roleOf_map fun s => ?_
  split <;> exact ⟨rfl, rfl, rfl⟩

theorem roleOf_clear {q : Seat → Bool} {now : Time} : (l.clear q now).roleOf c u = l.roleOf c u := by
  refine roleOf_map fun s => ?_
  split <;> exact ⟨rfl, rfl, rfl⟩

theorem roleOf_found (h : l.Sound) {now : Time} {type : ConversationType}
    {members : List (UserId × MemberRole)} : (l.found now type members).roleOf c u =
      if c = l.nextConversationId then (members.find? (·.1 = u)).map (·.2) else l.roleOf c u := by
  unfold roleOf seat? found
  rw [List.find?_append, List.find?_map]
  split
  case isTrue hc =>
    subst hc
    rw [show l.seats.find? (fun s => s.conversationId = l.nextConversationId ∧ s.userId = u) = none from
      h.seat?_next, Option.none_or, Option.map_map]
    simp [Function.comp_def]
  case isFalse hc =>
    have hother : members.find? ((fun s : Seat => decide (s.conversationId = c ∧ s.userId = u)) ∘
        fun m => ⟨l.nextConversationId, m.1, m.2, now, none⟩) = none := by
      refine List.find?_eq_none.mpr fun m _ => ?_
      simpa using fun h => absurd h.symm hc
    rw [hother, Option.map_none, Option.or_none]

theorem type?_found (h : l.Sound) {now : Time} {type : ConversationType}
    {members : List (UserId × MemberRole)} : (l.found now type members).type? c = if c = l.nextConversationId then some type else l.type? c := by
  unfold type? found
  rw [List.find?_append, List.find?_singleton]
  by_cases hc : c = l.nextConversationId
  · subst hc
    have hnone : l.conversations.find? (·.1 = l.nextConversationId) = none := by
      simpa [type?] using h.type?_next
    simp [hnone]
  · simp [hc, Ne.symm hc]

/-! ## What the operations keep -/

theorem Sound.congr {l' : Ledger} (h : l.Sound) (hconversations : l'.conversations = l.conversations)
    (hseats : l'.seats = l.seats) (hnext : l'.nextConversationId = l.nextConversationId) : l'.Sound := by
  obtain ⟨conversations, seats, postings, pins, next⟩ := l
  obtain ⟨conversations', seats', postings', pins', next'⟩ := l'
  cases hconversations
  cases hseats
  cases hnext
  exact ⟨h.ids, h.below, h.keys, h.seated, h.direct⟩

theorem Sound.skip (h : l.Sound) : l.skip.Sound :=
  ⟨h.ids, fun conv hconv => Nat.lt_succ_of_lt (h.below conv hconv), h.keys, h.seated, h.direct⟩

/-- Seats that change neither place nor user. -/
theorem Sound.mapSeats (h : l.Sound) {f : Seat → Seat}
    (hf : ∀ s ∈ l.seats, (f s).conversationId = s.conversationId ∧ (f s).userId = s.userId ∧
      (l.type? s.conversationId = some .direct → (f s).role = s.role)) :
    { l with seats := l.seats.map f }.Sound where
  ids := h.ids
  below := h.below
  keys := by
    rw [List.map_map, List.map_congr_left fun s hs => ?_]
    · exact h.keys
    · rw [Function.comp_apply, (hf s hs).1, (hf s hs).2.1]
  seated := by
    intro s' hs'
    obtain ⟨s, hs, rfl⟩ := List.mem_map.mp hs'
    rw [(hf s hs).1]
    exact h.seated s hs
  direct := by
    intro s' hs' hdirect
    obtain ⟨s, hs, rfl⟩ := List.mem_map.mp hs'
    rw [(hf s hs).1] at hdirect
    rw [(hf s hs).2.2 hdirect]
    exact h.direct s hs hdirect

theorem Sound.read (h : l.Sound) (q : Seat → Bool) (now : Time) : (l.read q now).Sound := by
  refine h.mapSeats fun s _ => ?_
  split <;> exact ⟨rfl, rfl, fun _ => rfl⟩

theorem Sound.clear (h : l.Sound) (q : Seat → Bool) (now : Time) : (l.clear q now).Sound := by
  refine h.mapSeats fun s _ => ?_
  split <;> exact ⟨rfl, rfl, fun _ => rfl⟩

theorem roleOf_eq_some {role : MemberRole} :
    l.roleOf c u = some role ↔ ∃ s, l.seat? c u = some s ∧ s.role = role := by
  rw [roleOf, Option.map_eq_some_iff]

/-- There are no owners in direct conversations. -/
theorem Sound.not_direct (h : l.Sound) (howner : l.roleOf c u = some .owner) :
    ∀ t ∈ l.type? c, t ≠ .direct := by
  obtain ⟨s, hs, hrole⟩ := roleOf_eq_some.mp howner
  obtain ⟨hmem, rfl, -⟩ := seat?_mem hs
  rintro _ htype rfl
  cases (h.direct s hmem htype).symm.trans hrole

theorem Sound.appoint (h : l.Sound) (howner : l.roleOf c u = some .owner) (target : UserId)
    (role : MemberRole) : (l.appoint c target role).Sound := by
  refine h.mapSeats fun s _ => ?_
  split
  case isTrue hkey =>
    exact ⟨rfl, rfl, fun htype => absurd rfl (h.not_direct howner _ (hkey.1 ▸ htype))⟩
  case isFalse => exact ⟨rfl, rfl, fun _ => rfl⟩

theorem Sound.leave (h : l.Sound) (c : ConversationId) (u : UserId) : (l.leave c u).Sound where
  ids := h.ids
  below := h.below
  keys := h.keys.sublist (List.filter_sublist.map _)
  seated := fun s hs => h.seated s (List.mem_filter.mp hs).1
  direct := fun s hs => h.direct s (List.mem_filter.mp hs).1

theorem Sound.join (h : l.Sound) (now : Time) (hmay : l.MayAdd u' c u) : (l.join now c u).Sound where
  ids := h.ids
  below := h.below
  keys := by
    simp only [Ledger.join, List.map_append, List.map_singleton]
    refine List.nodup_append.mpr ⟨h.keys, List.nodup_singleton _, ?_⟩
    rintro key hkey _ hnew rfl
    obtain ⟨s, hs, rfl⟩ := List.mem_map.mp hkey
    obtain ⟨hc, hu⟩ := Prod.mk.injEq .. ▸ List.mem_singleton.mp hnew
    have hfound := h.seat?_eq hs
    rw [hc, hu, hmay.2.2] at hfound
    cases hfound
  seated := by
    intro s hs
    rcases List.mem_append.mp hs with hs | hs
    · exact h.seated s hs
    · obtain ⟨-, ⟨admin, hadmin, -⟩, -⟩ := hmay
      obtain ⟨hmem, hc, -⟩ := seat?_mem hadmin
      rw [List.mem_singleton.mp hs]
      exact hc ▸ h.seated admin hmem
  direct := by
    intro s hs hdirect
    rcases List.mem_append.mp hs with hs | hs
    · exact h.direct s hs hdirect
    · rw [List.mem_singleton.mp hs]

theorem Sound.found (h : l.Sound) (now : Time) {type : ConversationType} {members : List (UserId × MemberRole)}
    (hnodup : (members.map (·.1)).Nodup) (hdirect : type = .direct → ∀ m ∈ members, m.2 = .member) :
    (l.found now type members).Sound := by
  have hold : ∀ s ∈ l.seats, s.conversationId ≠ l.nextConversationId := by
    intro s hs hc
    have hsome := h.seated s hs
    rw [hc, h.type?_next] at hsome
    cases hsome
  refine ⟨?_, ?_, ?_, ?_, ?_⟩
  · simp only [Ledger.found, List.map_append, List.map_singleton]
    refine List.nodup_append.mpr ⟨h.ids, List.nodup_singleton _, ?_⟩
    rintro id hid _ hnew rfl
    obtain ⟨conv, hconv, rfl⟩ := List.mem_map.mp hid
    exact Nat.ne_of_lt (h.below conv hconv) (List.mem_singleton.mp hnew)
  · intro conv hconv
    rcases List.mem_append.mp hconv with hconv | hconv
    · exact Nat.lt_succ_of_lt (h.below conv hconv)
    · rw [List.mem_singleton.mp hconv]
      exact Nat.lt_succ_self _
  · simp only [Ledger.found, List.map_append, List.map_map, Function.comp_def]
    refine List.nodup_append.mpr ⟨h.keys, ?_, ?_⟩
    · have hpair : members.map (fun m => (l.nextConversationId, m.1)) =
          (members.map (·.1)).map (l.nextConversationId, ·) := by
        rw [List.map_map]
        rfl
      rw [hpair]
      exact hnodup.map fun _ _ heq => (Prod.mk.inj heq).2
    · rintro key hkey _ hnew rfl
      obtain ⟨s, hs, rfl⟩ := List.mem_map.mp hkey
      obtain ⟨m, -, heq⟩ := List.mem_map.mp hnew
      exact hold s hs (Prod.mk.inj heq).1.symm
  · intro s hs
    rw [type?_found h]
    rcases List.mem_append.mp hs with hs | hs
    · rw [if_neg (hold s hs)]
      exact h.seated s hs
    · obtain ⟨m, -, rfl⟩ := List.mem_map.mp hs
      rw [if_pos rfl]
      rfl
  · intro s hs htype
    rw [type?_found h] at htype
    rcases List.mem_append.mp hs with hs | hs
    · rw [if_neg (hold s hs)] at htype
      exact h.direct s hs htype
    · obtain ⟨m, hm, rfl⟩ := List.mem_map.mp hs
      rw [if_pos rfl] at htype
      exact hdirect (Option.some.inj htype) m hm

/-! ## Sole owners -/

/-- Where the roles are the same, so are the owners. -/
theorem SoleOwner.congr {l' : Ledger} (h : l.SoleOwner) (htype : l'.type? = l.type?)
    (hrole : ∀ c u, l'.roleOf c u = l.roleOf c u) : l'.SoleOwner := by
  intro c hc
  simp only [hrole]
  exact h c (htype ▸ hc)

theorem soleOwner_appoint (hsound : l.Sound) (h : l.SoleOwner) {target : UserId} {role : MemberRole}
    (howner : l.roleOf c u = some .owner) (htarget : (l.roleOf c target).isSome) :
    (l.appoint c target role).SoleOwner ↔ (role = .owner ↔ target = u) := by
  obtain ⟨old, hold⟩ := Option.isSome_iff_exists.mp htarget
  have hunique : ∀ v, l.roleOf c v = some .owner → v = u := by
    obtain ⟨w, -, hw⟩ := h c (hsound.not_direct howner) ⟨u, by rw [howner]; rfl⟩
    exact fun v hv => (hw v hv).trans (hw u howner).symm
  have hafter : ∀ v, (l.appoint c target role).roleOf c v =
      if v = target then some role else l.roleOf c v := by
    intro v
    rw [roleOf_appoint, hold]
    simp
  constructor
  · intro hsole
    obtain ⟨w, hw, hwunique⟩ := hsole c (hsound.not_direct howner) ⟨target, by rw [hafter, if_pos rfl]; rfl⟩
    dsimp only at hw hwunique
    constructor
    · rintro rfl
      by_contra hne
      have hu := hwunique u (by rw [hafter, if_neg (Ne.symm hne)]; exact howner)
      have ht := hwunique target (by rw [hafter, if_pos rfl])
      exact hne (ht.trans hu.symm)
    · rintro rfl
      rw [hafter] at hw
      split at hw
      · exact Option.some.inj hw
      · exact absurd (hunique w hw) ‹_›
  · intro hiff c' hc' hmembers
    by_cases hc : c' = c
    · subst hc
      refine ⟨u, ?_, fun v hv => ?_⟩
      · dsimp only
        rw [hafter]
        split
        · rw [hiff.mpr (Eq.symm ‹_›)]
        · exact howner
      · dsimp only at hv
        rw [hafter] at hv
        split at hv
        · rw [‹v = target›]
          exact hiff.mp (Option.some.inj hv)
        · exact hunique v hv
    · have hsame : ∀ v, (l.appoint c target role).roleOf c' v = l.roleOf c' v := by
        intro v
        rw [roleOf_appoint, if_neg fun hcv => hc hcv.1]
      simp only [hsame] at hmembers ⊢
      exact h c' hc' hmembers

theorem soleOwner_leave (h : l.SoleOwner) (hc : ∀ t ∈ l.type? c, t ≠ .direct)  :
    (l.leave c u).SoleOwner ↔
      (l.roleOf c u = some .owner → ∀ v, (l.roleOf c v).isSome → v = u) := by
  have hafter : ∀ v, (l.leave c u).roleOf c v = if v = u then none else l.roleOf c v := by
    intro v
    rw [roleOf_leave]
    simp
  constructor
  · intro hsole howner v hv
    by_contra hne
    obtain ⟨w, hw, -⟩ := hsole c hc ⟨v, by rw [hafter, if_neg hne]; exact hv⟩
    rw [hafter] at hw
    split at hw
    · cases hw
    · obtain ⟨x, -, hx⟩ := h c hc ⟨u, by rw [howner]; rfl⟩
      exact ‹w ≠ u› ((hx w hw).trans (hx u howner).symm)
  · intro hlast c' hc' hmembers
    by_cases heq : c' = c
    · subst heq
      simp only [hafter] at hmembers ⊢
      obtain ⟨v, hv⟩ := hmembers
      split at hv
      · cases hv
      obtain ⟨w, hw, hunique⟩ := h c' hc ⟨v, hv⟩
      have hne : w ≠ u := by
        rintro rfl
        exact ‹v ≠ w› (hlast hw v hv)
      refine ⟨w, (if_neg hne).trans hw, fun x hx => ?_⟩
      dsimp only at hx
      split at hx
      · cases hx
      · exact hunique x hx
    · have hsame : ∀ v, (l.leave c u).roleOf c' v = l.roleOf c' v := by
        intro v
        rw [roleOf_leave, if_neg fun hcv => heq hcv.1]
      simp only [hsame] at hmembers ⊢
      exact h c' hc' hmembers

theorem soleOwner_join {now : Time} (h : l.SoleOwner) (hmay : l.MayAdd u' c u) :
    (l.join now c u).SoleOwner := by
  obtain ⟨htype, ⟨admin, hadmin, -⟩, hnone⟩ := hmay
  intro c' hc' hmembers
  have hafter (v) : (l.join now c u).roleOf c' v = _ := roleOf_join hnone
  by_cases heq : c' = c
  · subst heq
    obtain ⟨w, hw, hunique⟩ := h c' htype ⟨u', by rw [roleOf, hadmin]; rfl⟩
    have hne : w ≠ u := by
      rintro rfl
      rw [roleOf, hnone] at hw
      cases hw
    refine ⟨w, ?_, fun v hv => ?_⟩
    · dsimp only
      rw [hafter, if_neg fun h => hne h.2]
      exact hw
    · dsimp only at hv
      rw [hafter] at hv
      split at hv
      · cases hv
      · exact hunique v hv
  · simp only [hafter, heq, false_and, if_false] at hmembers ⊢
    exact h c' hc' hmembers

theorem soleOwner_found {now : Time} (hsound : l.Sound) (h : l.SoleOwner) {type : ConversationType}
    {members : List (UserId × MemberRole)}
    (hmembers : type ≠ .direct → ∃! u, (members.find? (·.1 = u)).map (·.2) = some .owner) :
    (l.found now type members).SoleOwner := by
  intro c hc hsome
  rw [type?_found hsound] at hc
  simp only [roleOf_found hsound] at hsome ⊢
  by_cases hnew : c = l.nextConversationId
  · simp only [if_pos hnew] at hc hsome ⊢
    exact hmembers (hc type rfl)
  · simp only [if_neg hnew] at hc hsome ⊢
    exact h c hc hsome

end Ledger

/-! ## Rows and roles -/

/-- Every group and channel that has members has exactly one owner. -/
def Database.SoleOwners (db : Database) : Prop :=
  ∀ conv ∈ db.conversations, conv.type ≠ .direct → db.membersOf conv.id ≠ [] →
    ∃ owner, (db.membersOf conv.id).filter (·.role = .owner) = [owner]

section
variable {db : Database} {c : ConversationId} {u : UserId}

theorem roleOf_ledger : db.ledger.roleOf c u = (db.member? c u).map (·.role) := by
  rw [Ledger.roleOf, Database.seat?_ledger, Option.map_map]
  rfl

theorem mem_membersOf {m : ConversationMember} :
    m ∈ db.membersOf c ↔ m ∈ db.members ∧ m.conversationId = c := by
  simp [Database.membersOf]

theorem Ledger.Sound.roleOf_member (h : db.ledger.Sound) {m : ConversationMember}
    (hm : m ∈ db.members) : db.ledger.roleOf m.conversationId m.userId = some m.role := by
  have hseat := h.seat?_eq (List.mem_map_of_mem hm)
  exact Ledger.roleOf_eq_some.mpr ⟨m.seat, hseat, rfl⟩

theorem member_of_role {role : MemberRole} (h : db.ledger.roleOf c u = some role) :
    ∃ m ∈ db.members, m.conversationId = c ∧ m.userId = u ∧ m.role = role := by
  obtain ⟨s, hs, hrole⟩ := Ledger.roleOf_eq_some.mp h
  obtain ⟨hmem, hc, hu⟩ := Ledger.seat?_mem hs
  obtain ⟨m, hm, rfl⟩ := List.mem_map.mp hmem
  exact ⟨m, hm, hc, hu, hrole⟩

theorem eq_singleton {α : Type} {a : α} {l : List α} (hnodup : l.Nodup) (ha : a ∈ l)
    (h : ∀ b ∈ l, b = a) : l = [a] := by
  match l with
  | [b] => rw [h b List.mem_cons_self]
  | b :: b' :: _ =>
    have heq := (h b List.mem_cons_self).trans (h b' (List.mem_cons_of_mem b List.mem_cons_self)).symm
    exact absurd (heq ▸ List.mem_cons_self) (List.nodup_cons.mp hnodup).1

theorem soleOwners_iff (hsound : db.ledger.Sound) : db.SoleOwners ↔ db.ledger.SoleOwner := by
  constructor
  · intro h c hc hsome
    obtain ⟨u, hu⟩ := hsome
    obtain ⟨role, hrole⟩ := Option.isSome_iff_exists.mp hu
    obtain ⟨m, hm, rfl, -, -⟩ := member_of_role hrole
    obtain ⟨t, ht⟩ := Option.isSome_iff_exists.mp (hsound.seated m.seat (List.mem_map_of_mem hm))
    obtain ⟨conv, hconv, heq⟩ := List.mem_map.mp (Ledger.type?_mem ht)
    obtain ⟨hid, rfl⟩ := Prod.mk.inj heq
    have hid : conv.id = m.conversationId := hid
    obtain ⟨owner, howner⟩ := h conv hconv (hc _ ht)
      (List.ne_nil_of_mem (mem_membersOf.mpr ⟨hm, hid.symm⟩))
    have hmem : ∀ m', m' ∈ db.members ∧ m'.conversationId = conv.id ∧ m'.role = .owner ↔ m' = owner := by
      intro m'
      have hmem := Iff.of_eq (congrArg (m' ∈ ·) howner)
      simpa [mem_membersOf, and_assoc] using hmem
    obtain ⟨hrow, hplace, hrank⟩ := (hmem owner).mpr rfl
    refine ⟨owner.userId, ?_, fun v hv => ?_⟩
    · dsimp only
      rw [← hid, ← hplace, hsound.roleOf_member hrow, hrank]
    · obtain ⟨m', hm', hc', rfl, hrole'⟩ := member_of_role hv
      rw [(hmem m').mp ⟨hm', hc'.trans hid.symm, hrole'⟩]
  · intro h conv hconv htype hmembers
    have hfound : db.ledger.type? conv.id = some conv.type :=
      hsound.type?_eq (List.mem_map.mpr ⟨conv, hconv, rfl⟩)
    obtain ⟨m, hm⟩ := List.exists_mem_of_ne_nil _ hmembers
    obtain ⟨hm, hc⟩ := mem_membersOf.mp hm
    obtain ⟨u, hu, hunique⟩ := h conv.id (by rw [hfound]; rintro _ ⟨⟩; exact htype)
      ⟨m.userId, by rw [← hc, hsound.roleOf_member hm]; rfl⟩
    obtain ⟨owner, howner, hplace, rfl, hrank⟩ := member_of_role hu
    have hnodup : db.members.Nodup := by
      refine List.Nodup.of_map (fun m => (m.conversationId, m.userId)) ?_
      simpa [Database.ledger, Function.comp_def, ConversationMember.seat] using hsound.keys
    refine ⟨owner, eq_singleton ((hnodup.filter _).filter _) ?_ fun m' hm' => ?_⟩
    · simp [mem_membersOf, howner, hplace, hrank]
    · obtain ⟨hm', hrank'⟩ := List.mem_filter.mp hm'
      obtain ⟨hm', hplace'⟩ := mem_membersOf.mp hm'
      have hu' := hunique m'.userId (by
        dsimp only
        rw [← hplace', hsound.roleOf_member hm', of_decide_eq_true hrank'])
      have hfound := hsound.seat?_eq (List.mem_map_of_mem (f := (·.seat)) hm')
      refine List.inj_on_of_nodup_map (f := fun m => (m.conversationId, m.userId)) ?_ hm' howner ?_
      · simpa [Database.ledger, Function.comp_def, ConversationMember.seat] using hsound.keys
      · exact Prod.ext (hplace'.trans hplace.symm) hu'

end

/-! ## Every step -/

/-- The steps that keep every group and channel to one owner. The owner only leaves when nobody else is
left, and a request of the owner that sets a role leaves its target an owner exactly if the target is
the owner. -/
def Gateway.KeepsOwner (s : Gateway) : Input → Prop
  | .call u (.removeMember c target) => u = target → (∃ m ∈ s.db.member? c u, m.role = .owner) →
      ∀ m ∈ s.db.membersOf c, m.userId = u
  | .call u (.setRole c target role) => (∃ m ∈ s.db.member? c u, m.role = .owner) →
      (∀ name ∈ role, MemberRole.ofString? name ≠ none) →
      ∀ m ∈ s.db.member? c target, (m.role.set role = .owner ↔ target = u)
  | _ => True

section
variable {s : Gateway} {env : Environment} {now : Time} {input : Input}

theorem owner_ledger {db : Database} {c : ConversationId} {u : UserId} :
    db.ledger.roleOf c u = some .owner ↔ ∃ m ∈ db.member? c u, m.role = .owner := by
  rw [roleOf_ledger, Option.map_eq_some_iff]
  simp

theorem nodup_eraseDups {α : Type} [BEq α] [LawfulBEq α] (l : List α) : l.eraseDups.Nodup := by
  induction hn : l.length using Nat.strong_induction_on generalizing l with
  | _ n ih =>
    cases l with
    | nil => simp
    | cons a l =>
      have hlt : (l.filter fun b => !b == a).length < n := by
        rw [← hn]
        exact Nat.lt_succ_of_le (List.length_filter_le _ _)
      rw [List.eraseDups_cons, List.nodup_cons, List.mem_eraseDups]
      exact ⟨by simp, ih _ hlt _ rfl⟩

theorem groupMembers_nodup {u : UserId} {memberIds : List UserId} :
    ((Gateway.groupMembers u memberIds).map (·.1)).Nodup := by
  simp only [Gateway.groupMembers, List.map_cons, List.map_map, Function.comp_def, List.map_id',
    List.nodup_cons, List.mem_eraseDups]
  exact ⟨by simp, nodup_eraseDups _⟩

theorem groupMembers_owner {u : UserId} {memberIds : List UserId} :
    ∃! v, ((Gateway.groupMembers u memberIds).find? (·.1 = v)).map (·.2) = some .owner := by
  refine ⟨u, by simp [Gateway.groupMembers], fun v hv => ?_⟩
  obtain ⟨m, hm, hrole⟩ := Option.map_eq_some_iff.mp hv
  have hid : m.1 = v := by simpa using List.find?_some hm
  rcases List.mem_cons.mp (List.mem_of_find?_eq_some hm) with rfl | hother
  · exact hid.symm
  · obtain ⟨w, -, rfl⟩ := List.mem_map.mp hother
    cases hrole

/-- What a step makes of the ledger that neither removes a member nor sets a role. -/
inductive Ledger.Change (l : Ledger) : Ledger → Prop
  | same : Change l l
  | skip : Change l l.skip
  | post (p : Posting) : Change l (l.post p)
  | strike (q : Posting → Bool) : Change l (l.strike q)
  | pin (c : ConversationId) (id : MessageId) : Change l (l.pin c id)
  | unpin (q : ConversationId × MessageId → Bool) : Change l (l.unpin q)
  | read (q : Seat → Bool) (now : Time) : Change l (l.read q now)
  | clear (q : Seat → Bool) (now : Time) : Change l (l.clear q now)
  | clearBoth (c : ConversationId) (now : Time) :
    Change l (((l.strike (·.conversationId = c)).unpin (·.1 = c)).clear (·.conversationId = c) now)
  | found (now : Time) (type : ConversationType) (members : List (UserId × MemberRole)) :
    (members.map (·.1)).Nodup → (type = .direct → ∀ m ∈ members, m.2 = .member) →
    (type ≠ .direct → ∃! u, (members.find? (·.1 = u)).map (·.2) = some .owner) →
    Change l (l.found now type members)
  | join (now : Time) (adminId : UserId) (c : ConversationId) (u : UserId) :
    l.MayAdd adminId c u → Change l (l.join now c u)

/-- The requests that remove a member or set a role. -/
def Input.Reassigns : Input → Prop
  | .call _ (.removeMember _ _) | .call _ (.setRole _ _ _) => True
  | _ => False

theorem Input.reassigns_cases (h : input.Reassigns) :
    (∃ u c target, input = .call u (.removeMember c target)) ∨
      ∃ u c target role, input = .call u (.setRole c target role) := by
  unfold Reassigns at h
  split at h
  · exact .inl ⟨_, _, _, rfl⟩
  · exact .inr ⟨_, _, _, _, rfl⟩
  · exact h.elim

theorem Gateway.Yields.change {l : Ledger} (h : s.Yields now input l) (hquiet : ¬input.Reassigns) :
    s.db.ledger.Change l := by
  have hstays : ∀ {l}, l = s.db.ledger → s.db.ledger.Change l := fun h => h ▸ .same
  have hpin : ∀ {checks c id l}, s.YieldsPin checks c id l → s.db.ledger.Change l :=
    fun h => h.elim hstays fun h => h.2 ▸ .pin _ _
  have hunpin : ∀ {c id l}, s.YieldsUnpin c id l → s.db.ledger.Change l :=
    fun h => h.elim hstays fun h => h ▸ .unpin _
  have hforward : ∀ {u id c l}, s.YieldsForward now u id c l → s.db.ledger.Change l :=
    fun h => h.elim (fun h => h.2 ▸ .post _) fun h => hstays h.2
  cases input with
  | event socket request =>
    obtain ⟨k, -, h⟩ := h
    cases request with
    | sendMessage data => exact h.elim hstays fun h => h.2.2 ▸ .post _
    | markAsRead c => exact h ▸ .read _ _
    | deleteMessage id => exact h.elim hstays fun h => h ▸ .strike _
    | pinMessage c id => exact hpin h
    | unpinMessage c id => exact hunpin h
    | forwardMessage id c reEncrypted =>
      simp only [YieldsEvent] at h
      split at h
      · exact hforward h
      · exact hstays h
    | _ => exact hstays h
  | call u route =>
    cases route with
    | createDirect target =>
      obtain h | rfl | ⟨members, ⟨hnodup, hdirect⟩, rfl⟩ := h
      · exact hstays h
      · exact .skip
      · exact .found _ _ _ hnodup (fun _ => hdirect) fun h => absurd rfl h
    | createGroup name description memberIds =>
      obtain rfl | rfl := h
      · exact .skip
      · exact .found _ _ _ groupMembers_nodup (fun heq => by cases heq) fun _ => groupMembers_owner
    | createChannel name description =>
      obtain rfl | rfl := h
      · exact .skip
      · refine .found _ _ _ (List.nodup_singleton _) (fun heq => by cases heq)
          fun _ => ⟨u, by simp, fun v hv => ?_⟩
        exact Eq.symm (by simpa using hv)
    | clearMessages c scope =>
      obtain ⟨-, h⟩ | ⟨-, rfl⟩ := h
      · exact hstays h
      · cases scope with
        | self => exact .clear _ _
        | both => exact .clearBoth _ _
    | addMember c target => exact h.elim (fun h => hstays h.2) fun h => h.2 ▸ .join _ _ _ _ h.1.1
    | removeMember c target => exact absurd trivial hquiet
    | setRole c target role => exact absurd trivial hquiet
    | pinMessage c id => exact hpin h
    | unpinMessage c id => exact hunpin h
    | forwardMessage id c => exact hforward h
    | _ => exact hstays h
  | timeout timer =>
    obtain h | ⟨t, -, rfl⟩ := h
    · exact hstays h
    · exact .strike _
  | _ => exact hstays h

theorem Ledger.Change.sound {l l' : Ledger} (h : l.Change l') (hl : l.Sound) : l'.Sound := by
  cases h with
  | same => exact hl
  | skip => exact hl.skip
  | post p => exact hl.congr rfl rfl rfl
  | strike q => exact hl.congr rfl rfl rfl
  | pin c id =>
    unfold Ledger.pin
    split
    · exact hl
    · exact hl.congr rfl rfl rfl
  | unpin q => exact hl.congr rfl rfl rfl
  | read q now => exact hl.read q now
  | clear q now => exact hl.clear q now
  | clearBoth c now =>
    have hunpin : ((l.strike (·.conversationId = c)).unpin (·.1 = c)).Sound := hl.congr rfl rfl rfl
    exact hunpin.clear _ now
  | found now type members hnodup hdirect _ => exact hl.found now hnodup hdirect
  | join now adminId c u hmay => exact hl.join now hmay

theorem Ledger.Change.soleOwner {l l' : Ledger} (h : l.Change l') (hl : l.Sound)
    (hsole : l.SoleOwner) : l'.SoleOwner := by
  cases h with
  | same => exact hsole
  | skip => exact hsole
  | post p => exact hsole
  | strike q => exact hsole
  | pin c id =>
    unfold Ledger.pin
    split <;> exact hsole
  | unpin q => exact hsole
  | read q now => exact hsole.congr rfl fun _ _ => roleOf_read
  | clear q now => exact hsole.congr rfl fun _ _ => roleOf_clear
  | clearBoth c now => exact hsole.congr rfl fun _ _ => roleOf_clear
  | found now type members _ _ howner => exact soleOwner_found hl hsole howner
  | join now adminId c u hmay => exact soleOwner_join hsole hmay

/-- Every posting is in a conversation that there is. -/
def Ledger.Placed (l : Ledger) : Prop := ∀ p ∈ l.postings, (l.type? p.conversationId).isSome

theorem Ledger.Change.type? {l l' : Ledger} (h : l.Change l') (hl : l.Sound) {c : ConversationId}
    (hc : (l.type? c).isSome) : l'.type? c = l.type? c := by
  cases h with
  | found now type members _ _ _ =>
    rw [type?_found hl, if_neg]
    rintro rfl
    rw [hl.type?_next] at hc
    cases hc
  | pin c id =>
    unfold Ledger.pin
    split <;> rfl
  | _ => rfl

theorem Gateway.Yields.type? {l : Ledger} (h : s.Yields now input l) (hsound : s.db.ledger.Sound)
    {c : ConversationId} (hc : (s.db.ledger.type? c).isSome) : l.type? c = s.db.ledger.type? c := by
  by_cases hquiet : input.Reassigns
  case neg => exact (h.change hquiet).type? hsound hc
  obtain ⟨u, c', target, rfl⟩ | ⟨u, c', target, role, rfl⟩ := Input.reassigns_cases hquiet
  · by_cases hmay : s.db.ledger.MayRemove u c' target
    · rw [h.1 hmay]
      rfl
    · rw [h.2 hmay]
  · obtain ⟨-, rfl⟩ | ⟨-, seat, -, rfl⟩ := h <;> rfl

/-- The checks and foreign keys of a forwarded message hold for its conversation. -/
theorem mayForward_placed {u : UserId} {c : ConversationId} {id : MessageId}
    (h : s.db.MayForward u c id) : (s.db.ledger.type? c).isSome ∧ ∃ seat, s.db.ledger.seat? c u = some seat := by
  obtain ⟨hmember, m, -, -, hconv, -⟩ := h
  rw [Database.type?_ledger, Option.isSome_map, ← Option.isSome_iff_exists]
  exact ⟨Option.isSome_iff_ne_none.mpr hconv, Database.isMember_ledger.mp hmember⟩

theorem fixed_of_mem {l l' : Ledger} (h : l'.postings.map (·.fixed) = l.postings.map (·.fixed))
    {p : Posting} (hp : p ∈ l'.postings) :
    ∃ p' ∈ l.postings, p'.id = p.id ∧ p'.createdAt = p.createdAt ∧
      p'.conversationId = p.conversationId := by
  have hfixed : p.fixed ∈ l.postings.map (·.fixed) := h ▸ List.mem_map_of_mem hp
  obtain ⟨p', hp', heq⟩ := List.mem_map.mp hfixed
  have hid : p'.fixed.id = p.fixed.id := congrArg Posting.id heq
  have hcreated : p'.fixed.createdAt = p.fixed.createdAt := congrArg Posting.createdAt heq
  have hc : p'.fixed.conversationId = p.fixed.conversationId := congrArg Posting.conversationId heq
  exact ⟨p', hp', hid, hcreated, hc⟩

theorem Gateway.Yields.placed {l : Ledger} (h : s.Yields now input l) (hsound : s.db.ledger.Sound)
    (hplaced : s.db.ledger.Placed) : l.Placed := by
  have hpost : ∀ {p : Posting}, (s.db.ledger.type? p.conversationId).isSome →
      (s.db.ledger.post p).Placed := by
    intro p htype p' hp'
    rcases List.mem_append.mp hp' with hp' | hp'
    · exact hplaced p' hp'
    · rw [List.mem_singleton.mp hp']
      exact htype
  obtain ⟨hfixed, -⟩ | ⟨u, data, -, ⟨seat, -, t, ht, -⟩, -, rfl⟩ | ⟨u, id, c, -, hmay, rfl⟩ := h.postings
  · intro p hp
    obtain ⟨p', hp', -, -, hc⟩ := fixed_of_mem hfixed hp
    rw [← hc, h.type? hsound (hplaced p' hp')]
    exact hplaced p' hp'
  · exact hpost (p := s.db.saved now u data.conversationId (data.dto now)) (Option.isSome_iff_exists.mpr ⟨t, ht⟩)
  · exact hpost (p := s.db.forwarded now u c id) (mayForward_placed hmay).1

theorem only_member (hsound : s.db.ledger.Sound) {c : ConversationId} {u : UserId} :
    (∀ v, (s.db.ledger.roleOf c v).isSome → v = u) ↔ ∀ m ∈ s.db.membersOf c, m.userId = u := by
  constructor
  · intro h m hm
    obtain ⟨hmem, rfl⟩ := mem_membersOf.mp hm
    exact h m.userId (by rw [hsound.roleOf_member hmem]; rfl)
  · intro h v hv
    obtain ⟨role, hrole⟩ := Option.isSome_iff_exists.mp hv
    obtain ⟨m, hm, hc, rfl, -⟩ := member_of_role hrole
    exact h m (mem_membersOf.mpr ⟨hm, hc⟩)

theorem next_removeMember_soleOwner (hsound : s.db.ledger.Sound) (h : s.db.ledger.SoleOwner)
    {u : UserId} {c : ConversationId} {target : UserId} {l : Ledger}
    (hyields : s.Yields now (.call u (.removeMember c target)) l) :
    l.SoleOwner ↔ s.KeepsOwner (.call u (.removeMember c target)) := by
  simp only [Gateway.KeepsOwner, ← owner_ledger]
  by_cases hmay : s.db.ledger.MayRemove u c target
  · rw [hyields.1 hmay, Ledger.soleOwner_leave h hmay.1]
    by_cases hself : u = target
    · subst hself
      rw [only_member hsound]
      exact ⟨fun h _ => h, fun h => h rfl⟩
    · refine iff_of_true (fun howner => ?_) fun heq => absurd heq hself
      obtain ⟨seat, hseat, hrole⟩ := Ledger.roleOf_eq_some.mp howner
      exact absurd hrole ((hmay.2 hself).2 seat hseat)
  · rw [hyields.2 hmay]
    refine iff_of_true h fun hself howner => absurd ⟨?_, ?_⟩ hmay
    · exact hsound.not_direct howner
    · exact fun hne => absurd hself hne

theorem next_setRole_soleOwner (hsound : s.db.ledger.Sound) (h : s.db.ledger.SoleOwner)
    {u : UserId} {c : ConversationId} {target : UserId} {role : Option String} {l : Ledger}
    (hyields : s.Yields now (.call u (.setRole c target role)) l) :
    l.SoleOwner ↔ s.KeepsOwner (.call u (.setRole c target role)) := by
  have hmay : s.db.ledger.MayAppoint u c ↔ s.db.ledger.roleOf c u = some .owner := by
    rw [Ledger.roleOf_eq_some]
    rfl
  have htarget : ∀ m ∈ s.db.member? c target, s.db.ledger.seat? c target = some m.seat := by
    intro m hm
    rw [Database.seat?_ledger, hm]
    rfl
  simp only [Gateway.KeepsOwner, ← owner_ledger]
  obtain ⟨hnot, rfl⟩ | ⟨⟨howner, hvalid⟩, seat, hseat, rfl⟩ := hyields
  · refine iff_of_true h fun howner hvalid m hm => ?_
    obtain hnot | ⟨name, hname, hnot⟩ | hnone := hnot
    · exact absurd (hmay.mpr howner) hnot
    · exact absurd hnot (hvalid name hname)
    · cases hnone.symm.trans (htarget m hm)
  · rw [Ledger.soleOwner_appoint hsound h (hmay.mp howner) (by rw [Ledger.roleOf, hseat]; rfl)]
    constructor
    · intro hiff _ _ m hm
      obtain rfl := Option.some.inj (hseat.symm.trans (htarget m hm))
      exact hiff
    · intro hkeeps
      rw [Database.seat?_ledger] at hseat
      obtain ⟨m, hm, rfl⟩ := Option.map_eq_some_iff.mp hseat
      exact hkeeps (hmay.mp howner) hvalid m hm

theorem sound_ids {db : Database} (h : db.ledger.Sound) : (db.conversations.map (·.id)).Nodup := by
  simpa [Database.ledger, Function.comp_def] using h.ids

theorem next_sound (hkeyed : s.db.Keyed) (hsound : s.db.ledger.Sound) (henabled : s.Enabled now input) :
    (s.next env (now, input)).db.ledger.Sound := by
  have hyields : s.Yields now input (s.next env (now, input)).db.ledger :=
    next_yields hkeyed (sound_ids hsound) henabled
  by_cases hquiet : input.Reassigns
  case neg => exact (hyields.change hquiet).sound hsound
  obtain ⟨u, c, target, rfl⟩ | ⟨u, c, target, role, rfl⟩ := Input.reassigns_cases hquiet
  · by_cases hmay : s.db.ledger.MayRemove u c target
    · exact hyields.1 hmay ▸ hsound.leave c target
    · exact hyields.2 hmay ▸ hsound
  · obtain ⟨-, h⟩ | ⟨⟨⟨admin, hadmin, howner⟩, -⟩, seat, -, h⟩ := hyields
    · exact h ▸ hsound
    · exact h ▸ hsound.appoint (Ledger.roleOf_eq_some.mpr ⟨admin, hadmin, howner⟩) target _

/-- **One step**: there is one owner still if and only if the step keeps it so. -/
theorem next_soleOwner (hkeyed : s.db.Keyed) (hsound : s.db.ledger.Sound)
    (h : s.db.ledger.SoleOwner) (henabled : s.Enabled now input) :
    (s.next env (now, input)).db.ledger.SoleOwner ↔ s.KeepsOwner input := by
  have hyields : s.Yields now input (s.next env (now, input)).db.ledger :=
    next_yields hkeyed (sound_ids hsound) henabled
  by_cases hquiet : input.Reassigns
  case neg =>
    refine iff_of_true ((hyields.change hquiet).soleOwner hsound h) ?_
    unfold Gateway.KeepsOwner
    split <;> first | trivial | exact absurd trivial hquiet
  obtain ⟨u, c, target, rfl⟩ | ⟨u, c, target, role, rfl⟩ := Input.reassigns_cases hquiet
  · exact next_removeMember_soleOwner hsound h hyields
  · exact next_setRole_soleOwner hsound h hyields

end

/-- **One owner**, in every state of a run, if and only if every step of the run keeps it so. -/
theorem sole_owners (env : Environment) (users : List User) (devices : List Device)
    (run : List (Time × Input)) (hrun : (gateway env users devices).Allowed (.start users devices) run) :
    (gateway env users devices).Throughout (fun s => s.db.SoleOwners) (.start users devices) run ↔
      ((gateway env users devices).restrict fun s input => s.KeepsOwner input.2).Allowed
        (.start users devices) run := by
  refine Machine.throughout_iff (I := fun s => s.db.Keyed ∧ s.db.ledger.Sound)
    (fun s input hs henabled => ⟨next_keyed hs.1, next_sound hs.1 hs.2 henabled⟩)
    (fun s input hs h henabled => ?_) ⟨⟨List.nodup_nil, ?_⟩, List.nodup_nil, ?_, List.nodup_nil, ?_, ?_⟩
    ?_ hrun
  · rw [soleOwners_iff hs.2] at h
    exact (soleOwners_iff (next_sound hs.1 hs.2 henabled)).trans (next_soleOwner hs.1 hs.2 h henabled)
  all_goals exact fun _ h => by cases h

/-! ## Runs -/

instance (s : Gateway) : (input : Input) → Decidable (s.KeepsOwner input)
  | .call _ (.removeMember ..) => inferInstanceAs (Decidable (_ → (∃ m ∈ _, _) → ∀ m ∈ _, _))
  | .call _ (.setRole ..) => inferInstanceAs (Decidable ((∃ m ∈ _, _) → (∀ name ∈ _, _) → ∀ m ∈ _, (_ ↔ _)))
  | .call _ (.getAll ..) | .call _ (.createDirect _) | .call _ (.createGroup ..) | .call _ (.createChannel ..)
  | .call _ (.getOne _) | .call _ (.update ..) | .call _ (.pinChat ..) | .call _ (.archiveChat ..)
  | .call _ (.getMessages ..) | .call _ (.clearMessages ..) | .call _ (.getMedia _) | .call _ (.searchMessages ..)
  | .call _ (.addMember ..) | .call _ (.pinMessage ..) | .call _ (.unpinMessage ..)
  | .call _ (.getPinnedMessages _) | .call _ (.forwardMessage ..) | .call _ .deleteAllMySenderKeys
  | .call _ (.setGroupKeys ..) | .call _ (.getMyGroupKey _) => .isTrue trivial
  | .connect .. | .event .. | .resume _ | .timeout _ | .disconnect _ | .cleanup | .restart => .isTrue trivial

/-- User 1 founds a group, adds user 3, makes user 2 an admin, who removes user 3, and is left alone
before leaving. -/
def dissolvedRun : List (Time × Input) := [
  (0, .call 1 (.createGroup [0x47] none [2])), (1, .call 1 (.addMember 1 3)),
  (2, .call 1 (.setRole 1 2 (some "ADMIN"))), (3, .call 2 (.removeMember 1 3)),
  (4, .call 2 (.removeMember 1 2)), (5, .call 1 (.setRole 1 1 none)), (6, .call 1 (.removeMember 1 1))]

theorem sole_owners_dissolved :
    (gateway sampleEnvironment [sampleUser 1, sampleUser 2, sampleUser 3] []).Throughout
      (fun s => s.db.SoleOwners) (.start [sampleUser 1, sampleUser 2, sampleUser 3] []) dissolvedRun :=
  (sole_owners sampleEnvironment [sampleUser 1, sampleUser 2, sampleUser 3] [] dissolvedRun
    (by decide +kernel)).mpr (by decide +kernel)

/-- User 1 founds a group with user 2, and leaves. -/
def abandonedRun : List (Time × Input) := [
  (0, .call 1 (.createGroup [0x47] none [2])), (1, .call 1 (.removeMember 1 1))]

theorem not_soleOwners {db : Database} (h : ∃ conv ∈ db.conversations, conv.type ≠ .direct ∧
    db.membersOf conv.id ≠ [] ∧ (db.membersOf conv.id).filter (·.role = .owner) = []) :
    ¬db.SoleOwners := by
  obtain ⟨conv, hconv, htype, hmembers, hnone⟩ := h
  intro hsole
  obtain ⟨owner, howner⟩ := hsole conv hconv htype hmembers
  cases hnone.symm.trans howner

theorem nobody_owns : ∃ s, (gateway sampleEnvironment [sampleUser 1, sampleUser 2] []).Reachable s ∧
    ¬s.db.SoleOwners :=
  ⟨_, Machine.reachable_iff.mpr ⟨abandonedRun, by decide +kernel, rfl⟩,
    not_soleOwners (by decide +kernel)⟩

end Vesper.Server
