import Vesper.Server.Ledger

/-!
# Saving a message

`saveMessage` writes the row of a message, then its key envelopes, then the time of its conversation,
outside a transaction. Its checks and the foreign keys of the row come before the first write; the
foreign keys of the envelopes come after it.
-/

namespace Vesper.Server
open Program

/-- Every envelope names a device that exists. -/
def Database.Addressed (db : Database) (envelopes : List MessageKeyEnvelope) : Prop :=
  ∀ e ∈ envelopes, ∃ d ∈ db.devices, d.id = e.deviceId

/-- The same messages, with their envelopes, and the same conversations, with their times. -/
def Database.SameMessages (db db' : Database) : Prop :=
  db'.messages = db.messages ∧ db'.conversations = db.conversations

section
variable {db : Database} {env : Environment} {now : Time} {u : UserId} {c : ConversationId}
  {dto : NewMessage} {id : MessageId}

theorem createEnvelopes_spec {envelopes : List MessageKeyEnvelope}
    (hid : (db.ledger.posting? id).isSome) :
    Triple (· = db) (createEnvelopes id envelopes)
      (fun _ db' => db.Addressed envelopes ∧ (db'.ledger.posting? id).isSome)
      fun db' => ¬db.Addressed envelopes ∧ db' = db := by
  unfold createEnvelopes
  refine .bind (Q := fun devices db' => db' = db ∧ devices = db.devices)
    (.reads fun _ h => ⟨h, by rw [h]⟩) fun devices => .given fun hdevices => ?_
  subst hdevices
  refine .bind (Q := fun _ db' => db.Addressed envelopes ∧ db' = db)
    (.demand (fun _ h haddressed => ⟨haddressed, h⟩) fun _ h haddressed => ⟨haddressed, h⟩) fun _ => ?_
  refine .modify fun db' h => ⟨h.1, ?_⟩
  have hkeep : Keeps Database.ledger (updateMessages (·.id = id) fun m =>
      { m with envelopes := newEnvelopes m.envelopes envelopes }) := keeps_updateMessages fun _ => rfl
  rw [h.2]
  exact (congrArg (fun l => (l.posting? id).isSome) (hkeep db)).mpr hid

/-- The row is there when it is fetched again, so only the envelopes can make this throw. -/
theorem concludeSave_spec {msg : Message} (hid : (db.ledger.posting? msg.id).isSome) :
    Triple (· = db) (concludeSave now c dto msg) (fun _ _ => db.Addressed dto.envelopes)
      fun db' => ¬db.Addressed dto.envelopes ∧ db' = db := by
  unfold concludeSave
  refine .bind (Q := fun _ db' => db' = db) (.reads fun _ h => h) fun selected => ?_
  split
  · refine .bind (createEnvelopes_spec hid) fun _ => ?_
    refine .bind (Q := fun _ db' => db.Addressed dto.envelopes ∧ (db'.ledger.posting? msg.id).isSome)
      (.modify fun db' h => h) fun _ => ?_
    refine .bind (Q := fun found db' => db.Addressed dto.envelopes ∧ found.isSome)
      (.reads fun db' h => ⟨h.1, ?_⟩) fun found => .given fun hfound => ?_
    · rw [Option.isSome_map]
      rw [Database.posting?_ledger, Option.isSome_map] at h
      exact h.2
    refine .bind (Q := fun _ db' => db.Addressed dto.envelopes) (.orThrow (fun _ _ h _ => h) ?_) fun _ =>
      .pure fun _ h => h
    intro _ _ hnone
    rw [hnone] at hfound
    cases hfound
  · rename_i hnone
    have haddressed : db.Addressed dto.envelopes := by
      rw [not_not.mp hnone]
      nofun
    exact .bind (Q := fun _ _ => db.Addressed dto.envelopes) (.modify fun _ _ => haddressed) fun _ =>
      .pure fun _ h => h

/-- When `saveMessage` throws, and what it has written by then. -/
theorem saveMessage_outcome : Triple (· = db) (saveMessage env now u c dto)
    (fun _ _ => db.MaySave env u c dto ∧ db.Addressed dto.envelopes)
    fun db' => ¬db.MaySave env u c dto ∧ db.SameMessages db' ∨
      db.MaySave env u c dto ∧ ¬db.Addressed dto.envelopes ∧
        ∃ metadata, db' = db.insert (dto.row now u c metadata) := by
  refine saveMessage_rule (fun hnot _ => .inl ⟨hnot, rfl, rfl⟩) fun hmay metadata => ?_
  refine (concludeSave_spec ?_).weaken (fun _ _ h => ⟨hmay, h⟩) fun _ h =>
    .inr ⟨hmay, h.1, metadata, h.2⟩
  rw [Database.posting?_ledger, Option.isSome_map]
  refine List.find?_isSome.mpr ⟨dto.row now u c metadata db.nextMessageId, ?_, by simp⟩
  exact List.mem_append_right _ (List.mem_singleton_self _)

/-- An exception leaves the messages and the conversations as they were if and only if the checks
before the first write do not all pass, or every envelope names a device. -/
theorem saveMessage_atomic_iff :
    (∀ e db', (saveMessage env now u c dto).exec db = (.error e, db') → db.SameMessages db') ↔
      (db.MaySave env u c dto → db.Addressed dto.envelopes) := by
  have hspec := @saveMessage_outcome db env now u c dto db rfl
  rcases hexec : (saveMessage env now u c dto).exec db with ⟨e | view, db'⟩ <;> rw [hexec] at hspec
  · constructor
    · intro hall hmay
      obtain ⟨hmessages, -⟩ := hall e db' rfl
      obtain ⟨hnot, -⟩ | ⟨-, -, metadata, rfl⟩ := hspec
      · exact absurd hmay hnot
      · exact nomatch List.append_right_eq_self.mp hmessages
    · rintro himp e' db'' heq
      obtain ⟨-, rfl⟩ := Prod.mk.inj heq
      obtain ⟨-, hsame⟩ | ⟨hmay, hnot, -⟩ := hspec
      · exact hsame
      · exact absurd (himp hmay) hnot
  · exact iff_of_true (fun _ _ heq => by cases heq) fun _ => hspec.2

end

/-- One user, alone in a group. -/
def Database.single : Database where
  users := [⟨1, [], [], [], none, false, 0⟩]
  devices := [⟨4, 1⟩]
  conversations := [⟨1, .group, none, none, none, 1, 0, 0⟩]
  members := [⟨1, 1, .owner, 0, 0, none, false, false⟩]
  messages := []
  pins := []
  senderKeys := []
  nextConversationId := 2
  nextMessageId := 1
  nextPinId := 1
  removedFiles := []

/-- The sender is told that the message failed, and it stays in the history with no envelope. -/
theorem saveMessage_leaves_row : ¬∀ (db : Database) (env : Environment) (now : Time) (u : UserId)
    (c : ConversationId) (dto : NewMessage) (e : HttpError) (db' : Database),
    (saveMessage env now u c dto).exec db = (.error e, db') → db.SameMessages db' := by
  intro hall
  have hsame := hall .single ⟨.ok, fun _ _ => false⟩ 10 1 1
    ⟨some [104, 105], none, none, none, none, none, none, none, some 4, [⟨4, [97]⟩, ⟨9, [98]⟩]⟩ _ _ rfl
  exact absurd hsame.1 (by decide)

end Vesper.Server
