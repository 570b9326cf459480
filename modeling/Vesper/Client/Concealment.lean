import Vesper.Client.Sealing

/-!
# Plaintext that leaves the client

A path conceals its input if whatever it emits or uploads is an encryption of it. Each does so exactly if the
encryptions it calls do not give their input back, or throw where the path has a plaintext to fall back on.
-/

namespace Vesper.Client.OutgoingContent
open Unicode (Utf16 encode)
open StoredSessions GroupSending Program
variable {P : Primitives} (F : ByteForms P) (w : Surroundings P)

/-! ## Texts -/

section
variable {α : Type} {s : ClientState P}

theorem exec_onSessions {m : StoreProgram α} : (onSessions m).exec s =
    ((m.exec s.sessions).1, { s with sessions := (m.exec s.sessions).2 }) := exec_zoom ..

theorem exec_onGroups {m : SendProgram P α} : (onGroups m).exec s =
    ((m.exec s.senders).1, { s with senders := (m.exec s.senders).2 }) := exec_zoom ..

theorem exec_send {o : Outgoing} : (send o).exec s = (.ok (), { s with sent := s.sent ++ [o] }) := rfl

theorem keeps_onSessions {m : StoreProgram α} : Keeps ClientState.sent (onSessions m : ClientProgram P α) := by
  intro s
  rw [exec_onSessions]

theorem keeps_onGroups {m : SendProgram P α} : Keeps ClientState.sent (onGroups m) := by
  intro s
  rw [exec_onGroups]

theorem conceals_send_iff {o : Outgoing} {input : Input} : Conceals F (send o) s input ↔ o.Conceals F input := by
  simp only [Conceals, exec_send, List.nil_append, List.mem_singleton, forall_eq]

theorem conceals_return {a : α} {input : Input} : Conceals F (return a : ClientProgram P α) s input := nofun

/-- Sealing sends nothing; what is sent afterwards counts. -/
theorem conceals_bind_iff {β : Type} {m : ClientProgram P α} {k : α → ClientProgram P β} {input : Input}
    (hkeeps : Keeps ClientState.sent m) : Conceals F (m >>= k) s input ↔
      ∀ a, (m.exec { s with sent := [] }).1 = .ok a → Conceals F (k a) (m.exec { s with sent := [] }).2 input := by
  have hnothing := hkeeps { s with sent := [] }
  rw [Conceals, exec_bind]
  rcases hexec : m.exec { s with sent := [] } with ⟨e | a, s'⟩ <;> rw [hexec] at hnothing <;>
    dsimp only at hnothing ⊢
  · refine iff_of_true ?_ nofun
    rw [hnothing]
    exact nofun
  · have hs' : { s' with sent := [] } = s' := by rw [← hnothing]
    simp only [Except.ok.injEq, forall_eq', Conceals, hs']

theorem conceals_bind_return_iff {β : Type} {m : ClientProgram P α} {f : α → β} {input : Input} :
    Conceals F (m >>= fun a => return f a) s input ↔ Conceals F m s input := by
  rw [Conceals, Conceals, exec_bind]
  rcases m.exec { s with sent := [] } with ⟨e | a, s'⟩ <;> rfl

theorem conceals_tryCatch_iff {m : ClientProgram P α} {c : Thrown → ClientProgram P α} {input : Input}
    (hc : ∀ e, Keeps ClientState.sent (c e)) : Conceals F (tryCatch m c) s input ↔ Conceals F m s input := by
  rw [Conceals, Conceals, Keeps.attempt hc]

theorem emitted_conceals_iff (htag : AppendsTag P) {content text : Utf16} {file : Option Bytes}
    {envelopes : Option (Nat × List (Nat × Utf16))} :
    (Outgoing.emitted (some text) envelopes).Conceals F ⟨some content, file⟩ ↔
      TextEncryption F (encode content) text := by
  simp only [Outgoing.Conceals, Option.mem_some_iff, forall_eq', exists_eq_left']
  exact and_iff_left_of_imp (TextEncryption.ne F htag)

end

/-- The module encrypts texts for the conversation, if anything, and does not give one back. -/
def CoversContent (o : Opening P) (selected : Option (Nat × ConversationKind)) (s : ClientState P) : Prop :=
  match selected with
  | some (_, .direct (some _)) => Ready w
  | some (conversationId, .group) => GroupReady w ∧
    (o.idb.get = .ok () → s.senders.groupSender (senderKey conversationId) ≠ none)
  | some (_, .direct none) | some (_, .channel) | none => False

/-- So it is for a message that `sendMessage` sends. -/
def CoversSent (v : FanOutAttempt P) (o : Opening P) (conversationId : Nat) (kind : ConversationKind)
    (content : Utf16) (s : ClientState P) : Prop :=
  match kind with
  | .direct (some otherUserId) => Ready w ∨ FansOut F w v content otherUserId s.sessions
  | .direct none | .group | .channel => CoversContent w o (some (conversationId, kind)) s

section
variable {w} {v : FanOutAttempt P} {o : Opening P} {selected : Option (Nat × ConversationKind)} {content : Utf16}
  {s : ClientState P}

theorem keeps_encryptContent : Keeps ClientState.sent (encryptContent F w o selected content) := by
  unfold encryptContent
  split
  · exact keeps_onSessions
  · exact keeps_onGroups
  · exact .pure
  · exact .pure
  · exact .pure

theorem encryptContent_encrypts_iff (htag : AppendsTag P) :
    (∀ text, ((encryptContent F w o selected content).exec s).1 = .ok text →
      TextEncryption F (encode content) text) ↔ CoversContent w o selected s := by
  have hplain : ¬ TextEncryption F (encode content) content := TextEncryption.not_self F htag
  unfold encryptContent CoversContent
  split
  · rw [exec_onSessions]
    exact encrypt_encrypts_iff F htag
  · rename_i conversationId
    rw [exec_onGroups]
    dsimp only
    by_cases hready : GroupReady w
    · rw [exec_encryptForGroup F hready, and_iff_right hready]
      rcases o.idb.get with e | ⟨⟨⟩⟩
      · exact iff_of_true nofun nofun
      rcases s.senders.groupSender (senderKey conversationId) with _ | senderBytes
      · exact iff_of_false (fun h => hplain (h content rfl)) fun h => h rfl rfl
      · exact iff_of_true (fun text => encryptWith_encrypts F) fun _ => nofun
    · rw [encryptForGroup_of_not_ready F hready]
      exact iff_of_false (fun h => hplain (h content rfl)) fun h => hready h.1
  · exact iff_of_false (fun h => hplain (h content rfl)) id
  · exact iff_of_false (fun h => hplain (h content rfl)) id
  · exact iff_of_false (fun h => hplain (h content rfl)) id

variable (w v o content s) in
theorem encryptSent_encrypts_iff (htag : AppendsTag P) (conversationId : Nat) (kind : ConversationKind) :
    (∀ payload, ((encryptSent F w v o conversationId kind content).exec s).1 = .ok payload →
      TextEncryption F (encode content) payload.1) ↔ CoversSent F w v o conversationId kind content s := by
  unfold encryptSent CoversSent
  split
  · rw [exec_onSessions]
    exact encryptDirect_encrypts_iff F htag
  · rw [result_map, forall_sent_iff, encryptContent_encrypts_iff F htag]
  · rw [result_map, forall_sent_iff, encryptContent_encrypts_iff F htag]
  · rw [result_map, forall_sent_iff, encryptContent_encrypts_iff F htag]

variable (w v o content) in
theorem keeps_encryptSent (conversationId : Nat) (kind : ConversationKind) :
    Keeps ClientState.sent (encryptSent F w v o conversationId kind content) := by
  unfold encryptSent
  split
  · exact keeps_onSessions
  · exact (keeps_encryptContent F).bind fun _ => .pure
  · exact (keeps_encryptContent F).bind fun _ => .pure
  · exact (keeps_encryptContent F).bind fun _ => .pure

/-- A message is not emitted. -/
def Withheld (socket : Option Bool) (isOnline scheduled : Bool) (currentUserId : Option Nat) (content : Utf16) :
    Prop :=
  Server.trim content = [] ∨ currentUserId = none ∨ ¬ (socket = some true ∧ isOnline) ∧ ¬ scheduled ∨ socket = none

theorem conceals_sendMessage_iff (htag : AppendsTag P) {socket : Option Bool} {isOnline scheduled : Bool}
    {currentUserId : Option Nat} {conversationId : Nat} {kind : ConversationKind} :
    Conceals F (sendMessage F w socket isOnline scheduled currentUserId v o conversationId kind content) s
      ⟨some content, none⟩ ↔
      Withheld socket isOnline scheduled currentUserId content ∨ CoversSent F w v o conversationId kind content s := by
  have hnothing : Conceals F (return () : ClientProgram P Unit) s ⟨some content, none⟩ := conceals_return F
  unfold sendMessage
  split
  · rename_i h
    refine iff_of_true hnothing (.inl ?_)
    exact h.elim .inl fun h => .inr (.inl h)
  split
  · rename_i h
    exact iff_of_true hnothing (.inl (.inr (.inr (.inl h))))
  rename_i hsome hsends
  have hwithheld : Withheld socket isOnline scheduled currentUserId content ↔ socket = none := by
    simp only [Withheld, ← or_assoc, or_iff_right hsome, or_iff_right hsends]
  have hkeeps := keeps_encryptSent F w v o content conversationId kind { s with sent := [] }
  have hcovers := encryptSent_encrypts_iff F w v o content { s with sent := [] } htag conversationId kind
  rw [hwithheld, show CoversSent F w v o conversationId kind content s ↔ _ from hcovers.symm, Conceals, exec_bind,
    exec_tryCatch, exec_bind]
  rcases hexec : (encryptSent F w v o conversationId kind content).exec { s with sent := [] } with
    ⟨e | ⟨payload, envelopes⟩, s'⟩ <;> rw [hexec] at hkeeps <;> dsimp only at hkeeps
  · refine iff_of_true ?_ (.inr nofun)
    simp only [exec_pure, hkeeps]
    exact nofun
  · cases socket with
    | none =>
      refine iff_of_true ?_ (.inl rfl)
      simp only [exec_pure, exec_throw, hkeeps]
      exact nofun
    | some connected =>
      simp only [exec_pure, exec_send, hkeeps, List.nil_append, List.mem_singleton, forall_eq,
        emitted_conceals_iff F htag]
      simp

theorem conceals_flushMessage_iff (htag : AppendsTag P) {connected : Bool} :
    Conceals F (flushMessage F w connected o selected content) s ⟨some content, none⟩ ↔
      connected = false ∨ CoversContent w o selected s := by
  cases connected with
  | false => exact iff_of_true (conceals_return F) (.inl rfl)
  | true =>
    rw [or_iff_right nofun, flushMessage, if_pos rfl, conceals_tryCatch_iff F fun _ => .pure,
      conceals_bind_iff F (keeps_encryptContent F)]
    simp only [conceals_bind_return_iff, conceals_send_iff, emitted_conceals_iff F htag]
    exact encryptContent_encrypts_iff F htag

theorem conceals_editMessage_iff (htag : AppendsTag P) {socket : Bool} :
    Conceals F (editMessage F w socket o selected content) s ⟨some content, none⟩ ↔
      socket = false ∨ CoversContent w o selected s := by
  cases socket with
  | false => exact iff_of_true (conceals_return F) (.inl rfl)
  | true =>
    rw [or_iff_right nofun, editMessage, if_pos rfl, conceals_bind_iff F (keeps_encryptContent F)]
    simp only [conceals_send_iff, emitted_conceals_iff F htag]
    exact encryptContent_encrypts_iff F htag

end

/-! ## Forwarding -/

namespace Forwarded
variable {κ : Type} (msg : Forwarded P κ)

/-- The content is decrypted with the legacy key, or not at all. -/
def plainContent : Utf16 :=
  if looksEncrypted msg.content then
    match msg.sourceConv with
    | some (_, .direct (some _)) =>
      if w.e2e.initialized ∧ w.e2e.currentUserId.isSome then msg.legacy.text msg.content else msg.content
    | some (_, .group) => if w.e2e.initialized then msg.legacy.text msg.content else msg.content
    | some (_, .direct none) | some (_, .channel) | none => msg.content
  else msg.content

end Forwarded

/-- The new content is an encryption. -/
def CoversForwarded (f : ForwardAttempt P) (content : Utf16) (conversationId : Nat) (kind : ConversationKind)
    (targetMemberIds : List Nat) (s : ClientState P) : Prop :=
  match kind with
  | .direct (some targetOther) => SealsDirect F w f.opening content targetOther s.sessions
  | .group => f.SealsForwarded F w content conversationId targetMemberIds s.senders
  | .direct none | .channel => False

section
variable {w} {κ : Type} {msg : Forwarded P κ} {f : ForwardAttempt P} {content : Utf16} {conversationId : Nat}
  {kind : ConversationKind} {targetMemberIds : List Nat} {s : ClientState P}

/-- A versioned text has a colon. -/
theorem not_versioned (h : looksEncrypted content) {version : Utf16} (hcolon : 58 ∈ version) :
    ¬ version <+: content := by
  intro hstart
  have hword : isWordUnit 58 := List.all_eq_true.mp (Bool.and_eq_true_iff.mp h).2 58 (hstart.subset hcolon)
  exact absurd hword (by decide)

theorem decrypt_unversioned {idb : Idb} {legacy : Legacy κ} {senderUserId : Nat} {fresh fresh' : P.Secret}
    (hdirect : ¬ V2_DM <+: content) (hgroup : ¬ V2_GROUP <+: content) :
    decrypt F w idb legacy content senderUserId fresh fresh' =
      return if w.e2e.initialized ∧ w.e2e.currentUserId.isSome then legacy.text content else content := by
  unfold decrypt
  rcases w.e2e.initialized with _ | _ <;> rcases w.e2e.currentUserId with _ | currentUserId <;>
    rcases w.e2e.identity with _ | identity <;> simp [hdirect, hgroup]

theorem decryptFromGroup_unversioned {idb : Idb} {initialized identity : Bool} {legacy : Legacy κ} {senderId : Nat}
    (hdirect : ¬ V2_DM <+: content) (hgroup : ¬ V2_GROUP <+: content) :
    StoredSessions.decryptFromGroup F idb initialized identity legacy content conversationId senderId =
      return if initialized then legacy.text content else content := by
  unfold StoredSessions.decryptFromGroup
  cases initialized <;> simp [hdirect, hgroup]

theorem exec_decryptForwarded : (decryptForwarded F w msg).exec s = (.ok (msg.plainContent w), s) := by
  unfold decryptForwarded Forwarded.plainContent
  by_cases hlooks : looksEncrypted msg.content
  · have hdirect : ¬ V2_DM <+: msg.content := not_versioned hlooks (by decide)
    have hgroup : ¬ V2_GROUP <+: msg.content := not_versioned hlooks (by decide)
    rw [if_pos hlooks, if_pos hlooks, exec_tryCatch]
    rcases msg.sourceConv with _ | ⟨_, (_ | sourceOther) | _ | _⟩
    · rfl
    · rfl
    · dsimp only
      rw [exec_onSessions, decrypt_unversioned F hdirect hgroup]
      rfl
    · dsimp only
      rw [decryptFromGroup_unversioned F hdirect hgroup]
      rfl
    · rfl
  · rw [if_neg hlooks, if_neg hlooks]
    rfl

/-- What throws is sent in plain. -/
theorem rescue_plain (htag : AppendsTag P) {m : ClientProgram P Utf16} {covers : Prop}
    (h : (∃ text, (m.exec s).1 = .ok text ∧ TextEncryption F (encode content) text) ↔ covers) :
    ∃ text, ((tryCatch m fun _ => return content).exec s).1 = .ok text ∧
      (TextEncryption F (encode content) text ↔ covers) := by
  rw [exec_tryCatch, ← h]
  rcases m.exec s with ⟨e | text, s'⟩
  · refine ⟨content, rfl, iff_of_false (TextEncryption.not_self F htag) (by simp)⟩
  · exact ⟨text, rfl, by simp⟩

variable (w f content conversationId kind targetMemberIds s) in
theorem reEncrypt_encrypts_iff (htag : AppendsTag P) : ∃ text,
    ((reEncrypt F w f content conversationId kind targetMemberIds).exec s).1 = .ok text ∧
      (TextEncryption F (encode content) text ↔
        CoversForwarded F w f content conversationId kind targetMemberIds s) := by
  refine rescue_plain F htag ?_
  rcases kind with (_ | targetOther) | _ | _
  · exact iff_of_false (not_encrypted F htag rfl) id
  · dsimp only
    rw [exec_onSessions]
    exact (sealsDirect_iff F htag).symm
  · dsimp only
    rw [exec_onGroups]
    exact reEncryptForGroup_encrypts_iff F htag
  · exact iff_of_false (not_encrypted F htag rfl) id

theorem keeps_reEncrypt : Keeps ClientState.sent (reEncrypt F w f content conversationId kind targetMemberIds) := by
  refine Keeps.rescue ?_ fun _ => .pure
  split
  · exact keeps_onSessions
  · exact keeps_onGroups
  · exact .pure
  · exact .pure

theorem conceals_sendPendingForward_iff (htag : AppendsTag P) {socket : Bool} :
    Conceals F (sendPendingForward F w socket msg f conversationId kind targetMemberIds) s
      ⟨some (msg.plainContent w), none⟩ ↔
      socket = false ∨ CoversForwarded F w f (msg.plainContent w) conversationId kind targetMemberIds s := by
  cases socket with
  | false => exact iff_of_true (conceals_return F) (.inl rfl)
  | true =>
    have hkeeps : Keeps ClientState.sent (decryptForwarded F w msg) := fun s => by rw [exec_decryptForwarded]
    rw [or_iff_right nofun, sendPendingForward, if_pos rfl, conceals_bind_iff F hkeeps]
    simp only [exec_decryptForwarded, Except.ok.injEq, forall_eq', conceals_bind_iff F (keeps_reEncrypt F),
      conceals_send_iff, emitted_conceals_iff F htag]
    obtain ⟨text, htext, hcovers⟩ := reEncrypt_encrypts_iff F w f (msg.plainContent w) conversationId kind
      targetMemberIds { s with sent := [] } htag
    rw [htext]
    simp only [Except.ok.injEq, forall_eq']
    exact hcovers

end

/-! ## Files -/

/-- Whatever goes out with an encrypted file, its key is encrypted. -/
def CoversMedia (m : FileAttempt P) (data : Bytes) (otherUserId : Nat) (s : ClientState P) : Prop :=
  ∀ encryptedBlob mkPayload, m.encryptMedia F data = .ok encryptedBlob → m.mkPayload w.maxArgs = .ok mkPayload →
    m.upload = .ok () → m.socket = true → Ready w ∨ FansOut F w m.v3 mkPayload otherUserId s.sessions

/-- In a group nothing goes out with a caption. -/
def CoversFile (m : FileAttempt P) (data : Bytes) (caption : Option Utf16) (conversationId : Nat)
    (kind : ConversationKind) (groupMemberIds : List Nat) (s : ClientState P) : Prop :=
  match kind with
  | .direct (some otherUserId) => CoversMedia F w m data otherUserId s
  | .group => SealsBinary F w m.opening.idb conversationId (some groupMemberIds) m.distributed data s.senders →
    m.upload = .ok () → m.socket = true → caption = none
  | .direct none | .channel => False

def CoversVoice (m : FileAttempt P) (data : Bytes) (conversationId : Nat) (kind : ConversationKind)
    (s : ClientState P) : Prop :=
  match kind with
  | .direct (some otherUserId) => CoversMedia F w m data otherUserId s
  | .group => GroupReady w ∧
    (m.opening.idb.get = .ok () → s.senders.groupSender (senderKey conversationId) ≠ none)
  | .direct none | .channel => False

/-- The text of a file is its key in a direct chat, and elsewhere its caption. -/
def fileInput (m : FileAttempt P) (data : Bytes) (caption : Option Utf16) : ConversationKind → Input
  | .direct (some _) => ⟨(m.mkPayload w.maxArgs).toOption, some data⟩
  | .direct none | .group | .channel => ⟨caption, some data⟩

section
variable {w} {m : FileAttempt P} {data : Bytes} {caption : Option Utf16} {conversationId : Nat}
  {kind : ConversationKind} {s : ClientState P}

theorem conceals_uploadAndEmit_iff {file : SealedFile} {content : Option Utf16} {input : Input} :
    Conceals F (uploadAndEmit m file content) s input ↔
      (Outgoing.uploaded file.fileToUpload).Conceals F input ∧
      (m.upload = .ok () → m.socket = true → (Outgoing.emitted content file.envelopes).Conceals F input) := by
  rw [Conceals, uploadAndEmit, exec_bind, exec_send]
  dsimp only
  rw [exec_bind, exec_await]
  rcases m.upload with e | ⟨⟨⟩⟩
  · simp
  cases m.socket with
  | false => simp
  | true => simp [exec_send]

theorem uploaded_conceals_iff (htag : AppendsTag P) {bytes : Bytes} {text : Option Utf16} :
    (Outgoing.uploaded bytes).Conceals F ⟨text, some data⟩ ↔ FileEncryption F data bytes := by
  simp only [Outgoing.Conceals, Option.mem_some_iff, exists_eq_left']
  exact and_iff_left_of_imp (FileEncryption.ne F htag)

theorem sealMedia_eq_ok_iff {otherUserId : Nat} {file : SealedFile} :
    ((sealMedia F w m data otherUserId).exec s).1 = .ok file ↔ ∃ encryptedBlob mkPayload payload,
      m.encryptMedia F data = .ok encryptedBlob ∧ m.mkPayload w.maxArgs = .ok mkPayload ∧
      ((encryptDirect F w m.v3 m.opening mkPayload otherUserId).exec s.sessions).1 = .ok payload ∧
      ⟨encryptedBlob, some payload.1, payload.2⟩ = file := by
  simp only [sealMedia, result_bind, exec_await, exec_onSessions, exec_pure, Except.ok.injEq]
  constructor
  · rintro ⟨encryptedBlob, hblob, mkPayload, hkey, payload, hpayload, rfl⟩
    exact ⟨encryptedBlob, mkPayload, payload, hblob, hkey, hpayload, rfl⟩
  · rintro ⟨encryptedBlob, mkPayload, payload, hblob, hkey, hpayload, rfl⟩
    exact ⟨encryptedBlob, hblob, mkPayload, hkey, payload, hpayload, rfl⟩

theorem keeps_sealMedia {otherUserId : Nat} : Keeps ClientState.sent (sealMedia F w m data otherUserId) :=
  Keeps.await.bind fun _ => Keeps.await.bind fun _ => keeps_onSessions.bind fun _ => .pure

theorem encryptMedia_encrypts {encryptedBlob : Bytes} (h : m.encryptMedia F data = .ok encryptedBlob) :
    FileEncryption F data encryptedBlob := by
  obtain ⟨ct, hct, rfl⟩ := map_eq_ok.mp h
  exact .media hct

/-- The content is the key of the file. -/
theorem conceals_media_iff (htag : AppendsTag P) {otherUserId : Nat} {content : SealedFile → Option Utf16}
    (hcontent : ∀ bytes key envelopes, content ⟨bytes, some key, envelopes⟩ = some key) :
    Conceals F (sealMedia F w m data otherUserId >>= fun file => uploadAndEmit m file (content file)) s
      ⟨(m.mkPayload w.maxArgs).toOption, some data⟩ ↔ CoversMedia F w m data otherUserId s := by
  rw [conceals_bind_iff F (keeps_sealMedia F)]
  simp only [sealMedia_eq_ok_iff, conceals_uploadAndEmit_iff, uploaded_conceals_iff F htag]
  constructor
  · intro h encryptedBlob mkPayload hblob hkey hupload hsocket
    refine (encryptDirect_encrypts_iff F htag (o := m.opening)).mp fun payload hpayload => ?_
    have hemitted := (h _ ⟨encryptedBlob, mkPayload, payload, hblob, hkey, hpayload, rfl⟩).2 hupload hsocket
    rw [hkey, hcontent] at hemitted
    exact (emitted_conceals_iff F htag).mp hemitted
  · rintro hcovers _ ⟨encryptedBlob, mkPayload, payload, hblob, hkey, hpayload, rfl⟩
    refine ⟨encryptMedia_encrypts F hblob, fun hupload hsocket => ?_⟩
    rw [hkey, hcontent]
    refine (emitted_conceals_iff F htag).mpr ?_
    exact (encryptDirect_encrypts_iff F htag).mpr (hcovers _ _ hblob hkey hupload hsocket) payload hpayload

theorem keeps_sealFile {groupMemberIds : List Nat} :
    Keeps ClientState.sent (sealFile F w m data conversationId kind groupMemberIds) := by
  unfold sealFile
  split
  · exact keeps_sealMedia F
  · refine keeps_onGroups.bind fun encBuf => ?_
    split
    · exact .throw
    · exact .pure
  · exact .pure
  · exact .pure

/-- A file for a group is encrypted, or the upload throws. -/
theorem sealFile_group_eq_ok_iff (htag : AppendsTag P) {groupMemberIds : List Nat} {file : SealedFile} :
    ((sealFile F w m data conversationId .group groupMemberIds).exec s).1 = .ok file ↔
      ∃ encBuf, ((GroupSending.encryptBinaryForGroup F w.maxArgs m.opening.idb w.e2e data conversationId
        (some groupMemberIds) m.distributed).exec s.senders).1 = .ok encBuf ∧ FileEncryption F data encBuf ∧
        ⟨encBuf, none, none⟩ = file := by
  rw [sealFile, result_bind]
  simp only [exec_onGroups]
  refine exists_congr fun encBuf => and_congr_right fun hencBuf => ?_
  have hencryption : FileEncryption F data encBuf ↔ encBuf ≠ data :=
    ⟨FileEncryption.ne F htag, (encryptBinaryForGroup_result F hencBuf).resolve_left⟩
  rw [hencryption]
  split
  · rename_i hsame
    simp [hsame]
  · rename_i hdiffers
    simp [hdiffers]

/-- A caption is sent as it is, but for blanks. -/
theorem caption_conceals_iff (htag : AppendsTag P) {envelopes : Option (Nat × List (Nat × Utf16))} :
    (Outgoing.emitted (caption.map Server.trim) envelopes).Conceals F ⟨caption, some data⟩ ↔ caption = none := by
  cases caption with
  | none => exact iff_of_true nofun rfl
  | some caption =>
    refine iff_of_false (fun h => ?_) nofun
    have hlonger := ((emitted_conceals_iff F htag).mp h).length_lt F htag
    have htrim := Server.length_trim_le caption
    have hencode := Unicode.length_le_encode caption
    omega

theorem conceals_plain_iff (htag : AppendsTag P) {content : SealedFile → Option Utf16} {text : Option Utf16} :
    Conceals F ((return ⟨data, none, none⟩) >>= fun file => uploadAndEmit m file (content file)) s
      ⟨text, some data⟩ ↔ False := by
  refine iff_of_false (fun h => ?_) id
  have huploaded := ((conceals_uploadAndEmit_iff F).mp ((conceals_bind_iff F .pure).mp h _ rfl)).1
  exact ((uploaded_conceals_iff F htag).mp huploaded).not_self F htag

theorem conceals_handleFileUpload_iff (htag : AppendsTag P) {groupMemberIds : List Nat} :
    Conceals F (handleFileUpload F w m data caption conversationId kind groupMemberIds) s
      (fileInput w m data caption kind) ↔ CoversFile F w m data caption conversationId kind groupMemberIds s := by
  rw [handleFileUpload, conceals_tryCatch_iff F fun _ => .pure]
  rcases kind with (_ | otherUserId) | _ | _
  · exact conceals_plain_iff F htag
  · exact conceals_media_iff F htag fun _ _ _ => rfl
  · rw [conceals_bind_iff F (keeps_sealFile F)]
    simp only [sealFile_group_eq_ok_iff F htag, conceals_uploadAndEmit_iff, CoversFile,
      ← encryptBinaryForGroup_encrypts_iff F htag]
    constructor
    · rintro h ⟨encBuf, hencBuf, hencryption⟩ hupload hsocket
      exact (caption_conceals_iff F htag).mp ((h _ ⟨encBuf, hencBuf, hencryption, rfl⟩).2 hupload hsocket)
    · rintro h _ ⟨encBuf, hencBuf, hencryption, rfl⟩
      exact ⟨(uploaded_conceals_iff F htag).mpr hencryption, fun hupload hsocket =>
        (caption_conceals_iff F htag).mpr (h ⟨encBuf, hencBuf, hencryption⟩ hupload hsocket)⟩
  · exact conceals_plain_iff F htag

theorem keeps_sealVoice : Keeps ClientState.sent (sealVoice F w m data conversationId kind) := by
  unfold sealVoice
  split
  · exact keeps_sealMedia F
  · exact keeps_onGroups.bind fun _ => .pure
  · exact .pure
  · exact .pure

variable (data) in
/-- No new key is distributed for a voice message. -/
theorem encryptVoice_encrypts_iff (htag : AppendsTag P) {idb : Idb} {a : Attempt P} {side : SenderSide P} :
    (∀ out, ((GroupSending.encryptBinaryForGroup F w.maxArgs idb w.e2e data conversationId none a).exec side).1 =
      .ok out → FileEncryption F data out) ↔
      GroupReady w ∧ (idb.get = .ok () → side.groupSender (senderKey conversationId) ≠ none) := by
  have hplain : ¬ FileEncryption F data data := FileEncryption.not_self F htag
  by_cases hready : GroupReady w
  · rw [and_iff_right hready, GroupSending.encryptBinaryForGroup, if_neg (groupReady_iff.mp hready), exec_bind,
      senderForBinary, exec_bind, exec_loadSender]
    rcases idb.get with e | ⟨⟨⟩⟩
    · exact iff_of_true (fun _ hout => by cases hout) fun hget => by cases hget
    rcases side.groupSender (senderKey conversationId) with _ | senderBytes
    · exact iff_of_false (fun h => hplain (h data rfl)) fun h => h rfl rfl
    · refine iff_of_true (fun out hout => ?_) fun _ heq => by cases heq
      obtain ⟨text, htext, hout⟩ := result_bind.mp hout
      obtain rfl := Except.ok.inj hout
      exact encryptWith_encrypts_file F htext
  · rw [encryptBinaryForGroup_of_not_ready F hready]
    exact iff_of_false (fun h => hplain (h data rfl)) fun h => hready h.1

theorem conceals_sendVoiceMessage_iff (htag : AppendsTag P) :
    Conceals F (sendVoiceMessage F w m data conversationId kind) s (fileInput w m data none kind) ↔
      CoversVoice F w m data conversationId kind s := by
  rw [sendVoiceMessage, conceals_tryCatch_iff F fun _ => .pure]
  rcases kind with (_ | otherUserId) | _ | _
  · exact conceals_plain_iff F htag
  · exact conceals_media_iff F htag fun _ _ _ => rfl
  · rw [conceals_bind_iff F (keeps_sealVoice F)]
    simp only [sealVoice, result_bind, exec_onGroups, exec_pure, Except.ok.injEq, conceals_uploadAndEmit_iff]
    refine Iff.trans ?_ (encryptVoice_encrypts_iff F data htag (a := m.distributed))
    constructor
    · intro h out hout
      exact (uploaded_conceals_iff F htag).mp (h _ ⟨out, hout, rfl⟩).1
    · rintro h _ ⟨out, hout, rfl⟩
      exact ⟨(uploaded_conceals_iff F htag).mpr (h out hout), fun _ _ _ hmem => by cases hmem⟩
  · exact conceals_plain_iff F htag

end

/-- **Each path conceals its input** exactly if the module covers it. -/
theorem conceals_iff (htag : AppendsTag P) :
    (∀ socket isOnline scheduled currentUserId v o conversationId kind content s,
      Conceals F (sendMessage F w socket isOnline scheduled currentUserId v o conversationId kind content) s
        ⟨some content, none⟩ ↔
        Withheld socket isOnline scheduled currentUserId content ∨
          CoversSent F w v o conversationId kind content s) ∧
    (∀ connected o selected content s,
      Conceals F (flushMessage F w connected o selected content) s ⟨some content, none⟩ ↔
        connected = false ∨ CoversContent w o selected s) ∧
    (∀ socket o selected content s,
      Conceals F (editMessage F w socket o selected content) s ⟨some content, none⟩ ↔
        socket = false ∨ CoversContent w o selected s) ∧
    (∀ (κ : Type) socket (msg : Forwarded P κ) f conversationId kind targetMemberIds s,
      Conceals F (sendPendingForward F w socket msg f conversationId kind targetMemberIds) s
        ⟨some (msg.plainContent w), none⟩ ↔
        socket = false ∨ CoversForwarded F w f (msg.plainContent w) conversationId kind targetMemberIds s) ∧
    (∀ m fileToProcess caption conversationId kind groupMemberIds s,
      Conceals F (handleFileUpload F w m fileToProcess caption conversationId kind groupMemberIds) s
        (fileInput w m fileToProcess caption kind) ↔
        CoversFile F w m fileToProcess caption conversationId kind groupMemberIds s) ∧
    ∀ m blob conversationId kind s,
      Conceals F (sendVoiceMessage F w m blob conversationId kind) s (fileInput w m blob none kind) ↔
        CoversVoice F w m blob conversationId kind s :=
  ⟨fun _ _ _ _ _ _ _ _ _ _ => conceals_sendMessage_iff F htag,
    fun _ _ _ _ _ => conceals_flushMessage_iff F htag,
    fun _ _ _ _ _ => conceals_editMessage_iff F htag,
    fun _ _ _ _ _ _ _ _ => conceals_sendPendingForward_iff F htag,
    fun _ _ _ _ _ _ _ => conceals_handleFileUpload_iff F htag,
    fun _ _ _ _ _ => conceals_sendVoiceMessage_iff F htag⟩

/-! ## A group without a sender key -/

def sampleSurroundings : Surroundings plainPrimitives := ⟨65536, readyModule, some 4, some 4⟩

def sampleOpening : Opening plainPrimitives where
  idb := soundIdb
  bundle := .ok ((Base64.toSextets (sampleBundle 1)).map urlChar)
  ek := .replicate 32 3
  fresh := .replicate 32 4

def sampleFile : FileAttempt plainPrimitives where
  key := .replicate 32 1
  iv := .replicate 12 2
  v3 :=
    { messageKey := .replicate 32 5
      msgIv := .replicate 12 6
      devices := fun _ => .ok [7]
      opening := fun _ => sampleOpening
      settle := fun targets => ⟨targets, .refl _⟩ }
  opening := sampleOpening
  distributed := sampleAttempt .accepted
  upload := .ok ()
  socket := true

/-- Nothing is stored, and nothing was sent. -/
def emptyClient : ClientState plainPrimitives := ⟨fun _ => none, fun _ => none, ⟨fun _ => none, [], []⟩, []⟩

/-- With the module ready a message to a user is concealed. -/
theorem conceals_sample : Conceals plainForms (sendMessage plainForms sampleSurroundings (some true) true false
    (some 1) sampleFile.v3 sampleOpening 5 (.direct (some 2)) [104, 105]) emptyClient ⟨some [104, 105], none⟩ :=
  ((conceals_iff plainForms sampleSurroundings appendsTag_plain).1 ..).mpr (.inr (.inl ⟨rfl, rfl, rfl⟩))

/-- A voice message is uploaded as it is, which `handleFileUpload` makes an error. -/
theorem voice_not_concealed : ¬ Conceals plainForms (sendVoiceMessage plainForms sampleSurroundings sampleFile
    [1, 2, 3] 5 .group) emptyClient ⟨none, some [1, 2, 3]⟩ := by
  intro h
  obtain ⟨-, hstored⟩ := (conceals_sendVoiceMessage_iff plainForms appendsTag_plain).mp h
  exact hstored rfl rfl

end Vesper.Client.OutgoingContent
