import Vesper.Client.GroupSending
import Vesper.Group.Holding

/-!
# Files in a group

What `encryptBinaryForGroup` makes of a file is read by `decryptBinaryFromGroup`, which takes the plaintext
through a string. Only a file that is a text comes back.
-/

namespace Vesper.Client.GroupFiles
open Unicode
open StoredSessions GroupSending SenderKey Program Base64
variable {P : Primitives} (F : ByteForms P)

/-! ## What is uploaded -/

section
variable {maxArgs : Nat} {idb : Idb} {e2e : E2EModule P} {d wire senderBytes : Bytes} {conversationId : Nat}
  {memberIds : Option (List Nat)} {a : Attempt P} {side : SenderSide P} {s : SenderState P}

/-- With a stored sender, what is returned is the text of the next message. -/
theorem encryptBinaryForGroup_stored (hidentity : e2e.identity.isSome) (hinitialized : e2e.initialized)
    (hstored : side.groupSender (senderKey conversationId) = some senderBytes)
    (hread : SenderState.fromBytes F senderBytes = .ok s)
    (hwire : ((encryptBinaryForGroup F maxArgs idb e2e d conversationId memberIds a).exec side).1 = .ok wire) :
    ∃ msg, (SenderKey.encrypt s d).2 = .ok msg ∧ wire = encode (groupText F msg) := by
  refine Triple.result (P := (· = side)) (E := fun _ => True)
    (V := fun wire => ∃ msg, (SenderKey.encrypt s d).2 = .ok msg ∧ wire = encode (groupText F msg)) ?_ rfl hwire
  unfold encryptBinaryForGroup
  rw [if_neg (by simp [hinitialized, Option.isNone_eq_false_iff.mpr hidentity])]
  refine Triple.bind (Q := fun stored _ => stored = some senderBytes) ?_ fun stored => ?_
  · refine (triple_loadSender.weaken (fun _ _ h => h) fun _ _ => trivial).bind fun stored => ?_
    rintro after ⟨rfl, rfl⟩
    rw [hstored]
    rfl
  · rintro after rfl
    refine (encryptWith_result F).bind (fun text => .pure fun _ h => ?_) after trivial
    obtain ⟨s', msg, hread', hmsg, rfl⟩ := h
    obtain rfl := Except.ok.inj (hread.symm.trans hread')
    exact ⟨msg, hmsg, rfl⟩

/-! ## What is read -/

theorem ascii_groupText (msg : SenderKeyMessage P) : ∀ u ∈ groupText F msg, u.toNat < 0x80 := by
  have htag : ∀ u ∈ V2_GROUP, u.toNat < 0x80 := by simp [V2_GROUP, ofString, utf16]
  have halphabet : ∀ v : Fin 64, (urlChar v).toNat < 0x80 := by decide
  intro u hu
  rcases List.mem_append.mp hu with hu | hu
  · exact htag u hu
  · obtain ⟨v, -, rfl⟩ := List.mem_map.mp hu
    exact halphabet v

variable {r : ReceiverState P} {msg : SenderKeyMessage P}

/-- A receiver that holds the key decrypts the next message, unless it is too far behind. -/
theorem decrypt_next (haead : AeadInverts P) (hsig : SignatureVerifies P) (hold : HoldsKey s r)
    (hmsg : (SenderKey.encrypt s d).2 = .ok msg) :
    (s.iteration.toNat ≤ r.iteration.toNat + MAX_SKIP.toNat → (SenderKey.decrypt r msg).2 = .ok d) ∧
    (r.iteration.toNat + MAX_SKIP.toNat < s.iteration.toNat → ∃ e, (SenderKey.decrypt r msg).2 = .error e) := by
  obtain ⟨-, hiteration, hsealed, hsignature⟩ := encrypt_ok hmsg
  have hverify : r.signingPub.verify P msg.payload msg.signature = .ok () := by
    rw [hold.signingPub, hsignature]
    exact hsig ..
  have hmiss : r.skipped[s.iteration]? = none :=
    Std.ExtTreeMap.getElem?_eq_none fun hmem => absurd (hold.skipped _ hmem) (Nat.lt_irrefl _)
  rw [decrypt_verified hverify, hiteration]
  constructor
  · intro hgap
    rw [messageKeyFor_ahead hmiss hold.behind hgap]
    have hkey : DoubleRatchet.messageKey r.chainKey (s.iteration.toNat - r.iteration.toNat) =
        DoubleRatchet.messageKey s.chainKey 0 := by
      rw [hold.chainKey, DoubleRatchet.messageKey_chainKey, Nat.add_zero]
    rw [hkey, ← hiteration]
    exact haead _ _ _ _ _ hsealed
  · intro hgap
    rw [messageKeyFor_limit hmiss hgap]
    exact ⟨_, rfl⟩

/-- The database of the receiver works, and the receiver is not too far behind. -/
def Decrypts (idb : Idb) (s : SenderState P) (r : ReceiverState P) : Prop :=
  idb.get = .ok () ∧ idb.put = .ok () ∧ s.iteration.toNat ≤ r.iteration.toNat + MAX_SKIP.toNat

variable {κ : Type} {legacy : Legacy κ} {senderId : Nat} {receivers : ByteStore} {receiverBytes : Bytes}

/-- What the attempt returns: everything before has to succeed. -/
theorem decryptV2Group_result (idb : Idb) {ciphertext : Utf16} {key : String} {data : Bytes}
    (hdata : b64Dec (ciphertext.drop V2_GROUP.length) = .ok data)
    (hstored : receivers key = some receiverBytes) :
    ((decryptV2Group F idb ciphertext key).exec receivers).1 = (do
      idb.get
      let (plaintext, _) ← Worker.groupReceiverDecrypt F receiverBytes data
      idb.put
      return decode plaintext) := by
  simp only [decryptV2Group, load, exec_bind, exec_await, exec_reads, hdata]
  rcases idb.get with e | _
  · rfl
  simp only [hstored, save, exec_bind, exec_await, exec_modify]
  rcases Worker.groupReceiverDecrypt F receiverBytes data with e | ⟨plaintext, newReceiverBytes⟩
  · rfl
  rcases idb.put with e | _ <;> rfl

theorem decryptFromGroup_groupText (idb : Idb) (legacy : Legacy κ) (haead : AeadInverts P) (hsig : SignatureVerifies P) (hold : HoldsKey s r)
    (hmsg : (SenderKey.encrypt s d).2 = .ok msg)
    (hstored : receivers (receiverKey conversationId senderId) = some receiverBytes)
    (hread : ReceiverState.fromBytes F receiverBytes = .ok r) :
    (Decrypts idb s r → ((StoredSessions.decryptFromGroup F idb true true legacy (groupText F msg) conversationId
      senderId).exec receivers).1 = .ok (decode d)) ∧
    (¬ Decrypts idb s r → ((StoredSessions.decryptFromGroup F idb true true legacy (groupText F msg)
      conversationId senderId).exec receivers).1 = .ok (ofString NOT_DECRYPTED)) := by
  have hdata : b64Dec ((groupText F msg).drop V2_GROUP.length) = .ok (messageBytes F msg) := by
    rw [groupText, List.drop_left]
    exact b64Dec_map_urlChar _
  obtain ⟨hnear, hfar⟩ := decrypt_next haead hsig hold hmsg
  have htag : V2_GROUP <+: groupText F msg := List.prefix_append ..
  have hresult := decryptV2Group_result F idb hdata hstored
  simp only [StoredSessions.decryptFromGroup, Bool.not_true, Bool.false_eq_true, if_false, htag, and_self, if_true,
    exec_tryCatch]
  rcases hexec : (decryptV2Group F idb (groupText F msg) (receiverKey conversationId senderId)).exec receivers with
    ⟨e | text, after⟩
  · refine ⟨?_, fun _ => rfl⟩
    rintro ⟨hget, hput, hgap⟩
    have hdecrypt := (Worker.groupReceiverDecrypt_eq_ok_iff F).mpr ⟨r, msg, hread, rfl, hnear hgap, rfl⟩
    rw [hexec, hget, hput, hdecrypt] at hresult
    cases hresult
  · rw [hexec] at hresult
    obtain ⟨_, hget, ⟨plaintext, new⟩, hdecrypt, _, hput, htext⟩ := by
      simpa only [bind_eq_ok, pure_eq_ok] using hresult.symm
    obtain ⟨r', msg', hread', hsame, hplain, -⟩ := (Worker.groupReceiverDecrypt_eq_ok_iff F).mp hdecrypt
    obtain rfl := Except.ok.inj (hread.symm.trans hread')
    obtain rfl := (messageBytes_inj F).mp hsame
    -- what is decrypted is not too far ahead
    have hgap : s.iteration.toNat ≤ r.iteration.toNat + MAX_SKIP.toNat := by
      refine Nat.not_lt.mp fun hgap => ?_
      obtain ⟨e, he⟩ := hfar hgap
      cases he.symm.trans hplain
    obtain rfl : d = plaintext := Except.ok.inj ((hnear hgap).symm.trans hplain)
    exact ⟨fun _ => congrArg Except.ok htext.symm, fun hno => absurd ⟨hget, hput, hgap⟩ hno⟩

/-! ## Round trips -/

/-- The sender can send to the group, and the receiver, whose module is ready, has its key. -/
structure Shared (e2e : E2EModule P) (side : SenderSide P) (receivers : ByteStore) (conversationId senderId : Nat)
    (s : SenderState P) (r : ReceiverState P) : Prop where
  identity : e2e.identity.isSome
  initialized : e2e.initialized
  sender : ∃ bytes, side.groupSender (senderKey conversationId) = some bytes ∧
    SenderState.fromBytes F bytes = .ok s
  receiver : ∃ bytes, receivers (receiverKey conversationId senderId) = some bytes ∧
    ReceiverState.fromBytes F bytes = .ok r
  holds : HoldsKey s r

/-- **A file comes back** exactly if it is a text in UTF-8 without a byte order mark, given that it is
decrypted. What is not decrypted becomes the text of the failure. -/
theorem group_file_iff (haead : AeadInverts P) (hsig : SignatureVerifies P) {idb' : Idb}
    (hshared : Shared F e2e side receivers conversationId senderId s r)
    (hwire : ((encryptBinaryForGroup F maxArgs idb e2e d conversationId memberIds a).exec side).1 = .ok wire) :
    ((decryptBinaryFromGroup F idb' true true legacy wire conversationId senderId).exec receivers).1 = .ok d ↔
      (Decrypts idb' s r → IsText d) ∧ (¬ Decrypts idb' s r → d = encode (ofString NOT_DECRYPTED)) := by
  obtain ⟨senderBytes, hsender, hreadSender⟩ := hshared.sender
  obtain ⟨receiverBytes, hreceiver, hreadReceiver⟩ := hshared.receiver
  obtain ⟨msg, hmsg, rfl⟩ :=
    encryptBinaryForGroup_stored F hshared.identity hshared.initialized hsender hreadSender hwire
  obtain ⟨hyes, hno⟩ := decryptFromGroup_groupText F idb' legacy haead hsig hshared.holds hmsg
    hreceiver hreadReceiver
  have htag : V2_GROUP <+: groupText F msg := List.prefix_append ..
  have hresult : ∀ text, ((StoredSessions.decryptFromGroup F idb' true true legacy (groupText F msg)
      conversationId senderId).exec receivers).1 = .ok text →
      ((decryptBinaryFromGroup F idb' true true legacy (encode (groupText F msg)) conversationId senderId).exec
        receivers).1 = .ok (encode text) := by
    intro text htext
    simp only [decryptBinaryFromGroup, decodeFatal_ascii (ascii_groupText F msg), if_pos htag, exec_tryCatch, exec_bind]
    rcases hexec : (StoredSessions.decryptFromGroup F idb' true true legacy (groupText F msg) conversationId
      senderId).exec receivers with ⟨e | text', after⟩ <;> rw [hexec] at htext <;> cases htext
    rfl
  by_cases hdecrypts : Decrypts idb' s r
  · rw [hresult _ (hyes hdecrypts), Except.ok.injEq, encode_decode_iff]
    exact ⟨fun h => ⟨fun _ => h, fun h' => absurd hdecrypts h'⟩, fun h => h.1 hdecrypts⟩
  · rw [hresult _ (hno hdecrypts), Except.ok.injEq]
    exact ⟨fun h => ⟨fun h' => absurd h' hdecrypts, fun _ => h.symm⟩, fun h => (h.2 hdecrypts).symm⟩

end

/-! ## Two files -/

def sampleSide : SenderSide plainPrimitives :=
  ⟨Function.update (fun _ => none) (senderKey 5) (some (sampleSender.toBytes plainForms)), [], []⟩

def sampleReceiver : ReceiverState plainPrimitives :=
  processDistributionMessage (createDistributionMessage sampleSender)

def sampleReceivers : ByteStore :=
  Function.update (fun _ => none) (receiverKey 5 1) (some (sampleReceiver.toBytes plainForms))

theorem shared_sample :
    Shared plainForms readyModule sampleSide sampleReceivers 5 1 sampleSender sampleReceiver where
  identity := rfl
  initialized := rfl
  sender := by
    refine ⟨sampleSender.toBytes plainForms, ?_, SenderState.fromBytes_toBytes plainForms sampleSender⟩
    simp only [sampleSide, Function.update_self]
  receiver := by
    refine ⟨sampleReceiver.toBytes plainForms, ?_, ReceiverState.fromBytes_toBytes plainForms (by decide)⟩
    rw [sampleReceivers, Function.update_self]
  holds := holdsKey_distribution sampleSender

/-- The client whose keys are all of this version. -/
def noLegacy : Legacy Unit := ⟨.ok none, fun _ _ => .ok none, fun _ _ => .ok none⟩

def upload (d : Bytes) : Except Thrown Bytes :=
  ((encryptBinaryForGroup plainForms 65536 soundIdb readyModule d 5 none (sampleAttempt .accepted)).exec
    sampleSide).1

def download (wire : Bytes) : Except Thrown Bytes :=
  ((decryptBinaryFromGroup plainForms soundIdb true true noLegacy wire 5 1).exec sampleReceivers).1

theorem group_file_sample : ∃ wire, upload [104, 105] = .ok wire ∧ download wire = .ok [104, 105] := by
  have hwire : (upload [104, 105]).toOption.isSome := by decide +kernel
  refine ⟨_, eq_ok_get hwire, ?_⟩
  refine (group_file_iff plainForms aeadInverts_plain signatureVerifies_plain shared_sample (eq_ok_get hwire)).mpr
    ⟨fun _ => ⟨[104, 105], ?_, nofun, rfl⟩, fun hno => absurd ⟨rfl, rfl, Nat.zero_le _⟩ hno⟩
  intro c hc
  simp only [List.mem_cons, List.not_mem_nil, or_false] at hc
  rcases hc with rfl | rfl <;> exact .inl (by decide)

/-- A byte that is no text becomes the three bytes of a replacement. -/
theorem binary_file_altered :
    Shared plainForms readyModule sampleSide sampleReceivers 5 1 sampleSender sampleReceiver ∧
    ∃ wire, upload [0xFF] = .ok wire ∧ download wire ≠ .ok [0xFF] := by
  have hrun : ((upload [0xFF]).toOption.bind fun wire => (download wire).toOption) = some [0xEF, 0xBF, 0xBD] := by
    decide +kernel
  obtain ⟨wire, hwire, hplain⟩ := Option.bind_eq_some_iff.mp hrun
  refine ⟨shared_sample, wire, ?_, fun hsame => ?_⟩
  · cases hupload : upload [0xFF] with
    | error e =>
      rw [hupload] at hwire
      cases hwire
    | ok wire' =>
      rw [hupload] at hwire
      exact congrArg Except.ok (Option.some.inj hwire)
  · rw [hsame] at hplain
    cases hplain

end Vesper.Client.GroupFiles
