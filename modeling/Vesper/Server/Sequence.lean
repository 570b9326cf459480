import Vesper.Server.Authorship

/-!
# The sequence of the messages

Messages are numbered from one, and the sequence that they are numbered from never goes back.
-/

namespace Vesper.Server
open Program

/-- No identifier is zero, which clients take for none. -/
structure Database.Positive (db : Database) : Prop where
  next : db.nextMessageId ≠ 0
  messages : ∀ m ∈ db.messages, m.id ≠ 0

section
variable {env : Environment} {s : Gateway} {now : Time} {input : Input} {u : UserId} {m : Handler PUnit}

/-- An outlook on what the sequence has reached. -/
abbrev Database.counted (db : Database) (u : UserId) : Outlook :=
  { Outlook.diagonal u (fun _ _ => False) with start := db.nextMessageId }

theorem sequence_of_oblivious (hkeyed : s.db.Keyed)
    (h : Oblivious (Twin (s.db.counted u) fun _ => True) m fun _ => True) :
    s.db.nextMessageId ≤ (m.exec s).2.db.nextMessageId := by
  have hdiagonal : Agree (.diagonal u fun _ _ => False) s.db s.db := agree_diagonal hkeyed fun _ _ h => h.elim
  have hagree : Agree (s.db.counted u) s.db s.db :=
    { hdiagonal with
      left := ⟨hdiagonal.left.keys, hdiagonal.left.below, hdiagonal.left.author⟩
      right := ⟨hdiagonal.right.keys, hdiagonal.right.below, hdiagonal.right.author⟩
      owned := fun _ _ _ => id
      start := Nat.le_refl _ }
  exact (h.after ⟨hagree, rfl, trivial⟩).db.start

/-- The sequence never goes back. -/
theorem next_sequence (hkeyed : s.db.Keyed) (henabled : s.Enabled now input) :
    s.db.nextMessageId ≤ (s.next env (now, input)).db.nextMessageId := by
  cases input with
  | connect socket u nickname => exact Nat.le_refl _
  | event socket request =>
    obtain ⟨k, hk⟩ := Option.isSome_iff_exists.mp henabled
    rw [Gateway.next, Gateway.program, hk]
    refine sequence_of_oblivious (s := { s with emitted := [] }) (u := k.userId) hkeyed ?_
    refine oblivious_handle rfl ?_ fun _ _ _ => trivial
    cases request <;> first | trivial | exact fun _ _ _ => trivial | exact fun _ => trivial
  | call u route =>
    refine sequence_of_oblivious (s := { s with emitted := [] }) (u := u) hkeyed (oblivious_call ?_)
    cases route with
    | getMessages id cursor after around =>
      cases after <;> cases around <;> first | trivial | exact fun _ _ _ => trivial
    | forwardMessage id c => exact fun _ => trivial
    | removeMember c target => exact id
    | _ => trivial
  | resume job =>
    have hkeeps : (s.next env (now, .resume job)).db.nextMessageId = s.db.nextMessageId :=
      keeps_resume (f := Database.nextMessageId) (fun _ _ => rfl) { s with emitted := [] }
    exact hkeeps.ge
  | timeout timer =>
    obtain ⟨t, ht, -⟩ := henabled
    rw [next_timeout ht, exec_deliverScheduledMessage]
    rcases s.db.message? t.messageId with _ | m
    · exact Nat.le_refl _
    dsimp only
    split
    · exact Nat.le_refl _
    split <;> exact Nat.le_refl _
  | disconnect socket =>
    obtain ⟨k, hk⟩ := Option.isSome_iff_exists.mp henabled
    rw [Gateway.next, Gateway.program, hk]
    exact Nat.le_refl _
  | cleanup => exact Nat.le_refl _
  | restart =>
    rw [next_restart_eq]

/-- A message that was not there has the next identifier. -/
theorem ids_of_yields {l : Ledger} (h : s.Yields now input l) {p : Posting} (hp : p ∈ l.postings) :
    p.id = s.db.nextMessageId ∨ ∃ q ∈ s.db.ledger.postings, q.id = p.id := by
  have hfresh : ∀ new : Posting, new.id = s.db.nextMessageId → p ∈ s.db.ledger.postings ++ [new] →
      p.id = s.db.nextMessageId ∨ ∃ q ∈ s.db.ledger.postings, q.id = p.id := by
    intro new hnew hp
    rcases List.mem_append.mp hp with hp | hp
    · exact .inr ⟨p, hp, rfl⟩
    · exact .inl (List.mem_singleton.mp hp ▸ hnew)
  rcases h.postings with ⟨hsame, -⟩ | ⟨u, data, -, -, -, rfl⟩ | ⟨u, id, c, -, -, rfl⟩
  · obtain ⟨q, hq, hfixed⟩ := List.mem_map.mp (hsame ▸ List.mem_map_of_mem hp)
    exact .inr ⟨q, hq, (congrArg Posting.id hfixed : q.fixed.id = p.fixed.id)⟩
  · exact hfresh (s.db.saved now u data.conversationId (data.dto now)) rfl hp
  · exact hfresh (s.db.forwarded now u c id) rfl hp

variable (env) in
theorem next_positive (hkeyed : s.db.Keyed) (hsound : s.db.ledger.Sound) (henabled : s.Enabled now input)
    (h : s.db.Positive) : (s.next env (now, input)).db.Positive := by
  refine ⟨Nat.pos_iff_ne_zero.mp ((Nat.pos_of_ne_zero h.next).trans_le (next_sequence hkeyed henabled)), fun m hm => ?_⟩
  have hyields : s.Yields now input (s.next env (now, input)).db.ledger :=
    next_yields hkeyed (sound_ids hsound) henabled
  rcases ids_of_yields hyields (List.mem_map_of_mem (f := Message.posting) hm) with hid | ⟨q, hq, hid⟩
  · exact ne_of_eq_of_ne hid h.next
  · obtain ⟨m₀, hm₀, rfl⟩ := List.mem_map.mp hq
    exact ne_of_eq_of_ne hid.symm (h.messages m₀ hm₀)

end

end Vesper.Server
