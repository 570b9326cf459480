import Vesper.Client.OutgoingContent

/-!
# What the encryptions return

Each encryption of `useE2E.ts` returns an encryption of what it is given, gives it back, or throws; which of
these it does is decided by the module, the stored sessions and sender keys, and what its requests come to.
-/

namespace Vesper.Client.OutgoingContent
open Unicode (Utf16 encode)
open StoredSessions GroupSending Program
variable {P : Primitives} (F : ByteForms P)

/-! ## Sessions -/

section
variable {maxArgs : Nat} {idb : Idb} {tag : Utf16} {ck : String} {ikDh ek fresh : P.Secret}
  {fetchBundle : Except Thrown Bytes} {plaintext : Bytes} {store : ByteStore}

theorem encryptUnderLock_eq_ok_iff {text : Utf16} :
    ((encryptUnderLock F maxArgs idb tag ck (F.secret ikDh).toList fetchBundle plaintext ek fresh).exec store).1 =
      .ok text ↔
      idb.get = .ok () ∧ idb.put = .ok () ∧ ∃ sessionBytes initMsg ciphertext newSessionBytes,
        openSession F (F.secret ikDh).toList fetchBundle ek fresh (store ck) = .ok (sessionBytes, initMsg) ∧
        Worker.ratchetEncrypt F sessionBytes plaintext [] = .ok (ciphertext, newSessionBytes) ∧
        (wireBytes initMsg ciphertext).length ≤ maxArgs ∧
        text = tag ++ (Base64.toSextets (wireBytes initMsg ciphertext)).map urlChar := by
  simp only [encryptUnderLock, load, save, result_bind, exec_await, exec_reads, exec_modify, exec_pure,
    b64Enc_eq_ok_iff, Except.ok.injEq]
  constructor
  · rintro ⟨_, ⟨⟨⟩, hget, rfl⟩, ⟨sessionBytes, initMsg⟩, hopen, ⟨ciphertext, new⟩, hencrypt, ⟨⟩, ⟨⟨⟩, hput, -⟩, _,
      ⟨hlength, rfl⟩, rfl⟩
    exact ⟨hget, hput, sessionBytes, initMsg, ciphertext, new, hopen, hencrypt, hlength, rfl⟩
  · rintro ⟨hget, hput, sessionBytes, initMsg, ciphertext, new, hopen, hencrypt, hlength, rfl⟩
    exact ⟨_, ⟨⟨⟩, hget, rfl⟩, (sessionBytes, initMsg), hopen, (ciphertext, new), hencrypt, ⟨⟩, ⟨⟨⟩, hput, trivial⟩,
      _, ⟨hlength, rfl⟩, rfl⟩

/-- A session, stored or opened with the bundle, encrypts the text, and the database and the engine take what
comes of it. -/
def Seals (maxArgs : Nat) (idb : Idb) (ck : String) (ikDh : P.Secret) (fetchBundle : Except Thrown Bytes)
    (plaintext : Bytes) (ek fresh : P.Secret) (store : ByteStore) : Prop :=
  idb.get = .ok () ∧ idb.put = .ok () ∧ Encrypts F ikDh fetchBundle plaintext ek fresh (store ck) ∧
    wireLength (store ck) plaintext ≤ maxArgs

variable (tag) in
theorem encryptUnderLock_returns_iff (htag : AppendsTag P) :
    (∃ text, ((encryptUnderLock F maxArgs idb tag ck (F.secret ikDh).toList fetchBundle plaintext ek fresh).exec
      store).1 = .ok text) ↔ Seals F maxArgs idb ck ikDh fetchBundle plaintext ek fresh store := by
  simp only [encryptUnderLock_eq_ok_iff, Seals, encrypts_iff]
  constructor
  · rintro ⟨_, hget, hput, sessionBytes, initMsg, ciphertext, new, hopen, hencrypt, hlength, rfl⟩
    rw [length_wireBytes F htag hopen hencrypt] at hlength
    exact ⟨hget, hput, ⟨sessionBytes, initMsg, ciphertext, new, hopen, hencrypt⟩, hlength⟩
  · rintro ⟨hget, hput, ⟨sessionBytes, initMsg, ciphertext, new, hopen, hencrypt⟩, hlength⟩
    rw [← length_wireBytes F htag hopen hencrypt] at hlength
    exact ⟨_, hget, hput, sessionBytes, initMsg, ciphertext, new, hopen, hencrypt, hlength, rfl⟩

end

/-! ## Direct chats -/

variable (w : Surroundings P)

/-- `encrypt` does not give the text back. -/
def Ready : Prop := w.e2e.identity.isSome ∧ w.e2e.initialized ∧ w.e2e.currentUserId.isSome

section
variable {w} {o : Opening P} {content : Utf16} {userId : Nat} {store : ByteStore}

theorem ready_iff : Ready w ↔ ∃ identity currentUserId, w.e2e.identity = some identity ∧
    w.e2e.initialized = true ∧ w.e2e.currentUserId = some currentUserId := by
  simp only [Ready, Option.isSome_iff_exists]
  constructor
  · rintro ⟨⟨identity, hidentity⟩, hinitialized, currentUserId, hcurrent⟩
    exact ⟨identity, currentUserId, hidentity, hinitialized, hcurrent⟩
  · rintro ⟨identity, currentUserId, hidentity, hinitialized, hcurrent⟩
    exact ⟨⟨identity, hidentity⟩, hinitialized, currentUserId, hcurrent⟩

theorem encrypt_of_not_ready (h : ¬ Ready w) : encrypt F w o content userId = return content := by
  unfold encrypt
  split
  · rename_i identity currentUserId hidentity hinitialized hcurrent
    exact absurd (ready_iff.mpr ⟨identity, currentUserId, hidentity, hinitialized, hcurrent⟩) h
  · rfl

theorem encrypt_encrypts_iff (htag : AppendsTag P) :
    (∀ text, ((encrypt F w o content userId).exec store).1 = .ok text → TextEncryption F (encode content) text) ↔
      Ready w := by
  constructor
  · intro h
    by_contra hready
    rw [encrypt_of_not_ready F hready] at h
    exact (h content rfl).not_self F htag
  · intro h text htext
    obtain ⟨identity, currentUserId, hidentity, hinitialized, hcurrent⟩ := ready_iff.mp h
    simp only [encrypt, hidentity, hinitialized, hcurrent] at htext
    obtain ⟨-, -, _, _, _, _, -, hencrypt, -, rfl⟩ := (encryptUnderLock_eq_ok_iff F).mp htext
    exact .session hencrypt

end

/-- An encryption to a user returns. -/
def SealsDirect (o : Opening P) (content : Utf16) (userId : Nat) (store : ByteStore) : Prop :=
  match w.e2e.identity, w.e2e.initialized, w.e2e.currentUserId with
  | some identity, true, some currentUserId =>
    Seals F w.maxArgs o.idb (pairKey currentUserId userId) identity.ikDhSecret (o.bundle >>= b64Dec) (encode content)
      o.ek o.fresh store
  | _, _, _ => False

namespace FanOutAttempt
variable (v : FanOutAttempt P)

/-- The message key is sealed for a device. -/
def SealsFor (identity : IdentityKeys P) (myDeviceId deviceId : Nat) (store : ByteStore) : Prop :=
  let o := v.opening deviceId
  Seals F w.maxArgs o.idb (devicePairKey myDeviceId deviceId) identity.ikDhSecret
    (deviceBundleOrThrow deviceId (fetchDeviceBundle o.bundle)) v.messageKey.toList o.ek o.fresh store

/-- The message key is sealed for one of the devices. One before it may have left its session. -/
def Reaches (identity : IdentityKeys P) (myDeviceId : Nat) : List Nat → ByteStore → Prop
  | [], _ => False
  | deviceId :: rest, store => v.SealsFor F w identity myDeviceId deviceId store ∨
    Reaches identity myDeviceId rest ((v.wrap F w identity myDeviceId deviceId).exec store).2

end FanOutAttempt

/-- `encryptV3` makes an envelope. -/
def SealsV3 (v : FanOutAttempt P) (content : Utf16) (userId : Nat) (store : ByteStore) : Prop :=
  match w.e2e.identity, w.myDeviceId, w.e2e.currentUserId with
  | some identity, some myDeviceId, some currentUserId =>
    (∃ ct, subtleEncrypt (F.block.symm v.messageKey) v.msgIv.toList (encode content) = .ok ct ∧
      (v.msgIv.toList ++ F.cipher ct).length ≤ w.maxArgs) ∧
    v.Reaches F w identity myDeviceId (v.settle (v.targetDeviceIds myDeviceId currentUserId userId)).val store
  | _, _, _ => False

/-- The text goes out under a message key that some device has. -/
def FansOut (v : FanOutAttempt P) (content : Utf16) (userId : Nat) (store : ByteStore) : Prop :=
  w.hookDeviceId.isSome ∧ SealsV3 F w v content userId store

section
variable {w} {v : FanOutAttempt P} {o : Opening P} {content : Utf16} {userId : Nat} {store : ByteStore}

theorem sealsDirect_iff (htag : AppendsTag P) : SealsDirect F w o content userId store ↔
    ∃ text, ((encrypt F w o content userId).exec store).1 = .ok text ∧ TextEncryption F (encode content) text := by
  unfold SealsDirect
  split
  · rename_i identity currentUserId hidentity hinitialized hcurrent
    have hready : Ready w := ready_iff.mpr ⟨identity, currentUserId, hidentity, hinitialized, hcurrent⟩
    rw [← encryptUnderLock_returns_iff F V2_DM htag]
    refine exists_congr fun text => ?_
    rw [and_iff_left_of_imp ((encrypt_encrypts_iff F htag).mpr hready text)]
    simp only [encrypt, hidentity, hinitialized, hcurrent, StoredSessions.drEncrypt]
  · rename_i hnone
    refine iff_of_false id ?_
    have hready : ¬ Ready w := by
      rw [ready_iff]
      rintro ⟨identity, currentUserId, hidentity, hinitialized, hcurrent⟩
      exact hnone identity currentUserId hidentity hinitialized hcurrent
    exact not_encrypted F htag (by rw [encrypt_of_not_ready F hready, exec_pure])

variable (w v store) in
theorem wrap_returns_iff (htag : AppendsTag P) (identity : IdentityKeys P) (myDeviceId deviceId : Nat) :
    (∃ text, ((v.wrap F w identity myDeviceId deviceId).exec store).1 = .ok text) ↔
      v.SealsFor F w identity myDeviceId deviceId store :=
  encryptUnderLock_returns_iff F V3_DM htag

variable (w v) in
/-- An envelope is made exactly if a device is reached. -/
theorem envelopes_ne_nil_iff (htag : AppendsTag P) (identity : IdentityKeys P) (myDeviceId : Nat)
    (deviceIds : List Nat) (store : ByteStore) :
    ∃ envelopes, ((v.envelopes F w identity myDeviceId deviceIds).exec store).1 = .ok envelopes ∧
      (envelopes ≠ [] ↔ v.Reaches F w identity myDeviceId deviceIds store) := by
  induction deviceIds generalizing store with
  | nil => exact ⟨[], rfl, iff_of_false (fun h => h rfl) id⟩
  | cons deviceId rest ih =>
    have hwrap := wrap_returns_iff F w v store htag identity myDeviceId deviceId
    obtain ⟨others, hothers, hreaches⟩ := ih ((v.wrap F w identity myDeviceId deviceId).exec store).2
    simp only [FanOutAttempt.envelopes, FanOutAttempt.Reaches, exec_bind, exec_tryCatch, exec_pure, ← hwrap,
      ← hreaches]
    rcases hexec : (v.wrap F w identity myDeviceId deviceId).exec store with ⟨e | text, store'⟩ <;>
      rw [hexec] at hothers <;>
      rcases hrest : (v.envelopes F w identity myDeviceId rest).exec store' with ⟨e' | l, store''⟩ <;>
      rw [hrest] at hothers <;> cases hothers <;> simp [hrest]

theorem encryptV3_encrypts {text : Utf16} {envelopes : List (Nat × Utf16)}
    (h : ((encryptV3 F w v content userId).exec store).1 = .ok (some (text, envelopes))) :
    TextEncryption F (encode content) text := by
  unfold encryptV3 at h
  split at h
  · simp only [result_bind, exec_await, exec_pure, b64Enc_eq_ok_iff, Except.ok.injEq, Option.some.injEq,
      Prod.mk.injEq] at h
    obtain ⟨ct, hct, _, ⟨-, rfl⟩, _, -, rfl, -⟩ := h
    exact .messageKey hct
  · cases h

theorem encryptV3_seals_iff (htag : AppendsTag P) : SealsV3 F w v content userId store ↔
    ∃ text envelope rest, ((encryptV3 F w v content userId).exec store).1 = .ok (some (text, envelope :: rest)) := by
  unfold SealsV3
  split
  · rename_i identity myDeviceId currentUserId hidentity hdevice hcurrent
    obtain ⟨envelopes, henvelopes, hreaches⟩ := envelopes_ne_nil_iff F w v htag identity myDeviceId
      (v.settle (v.targetDeviceIds myDeviceId currentUserId userId)).val store
    simp only [encryptV3, hidentity, hdevice, hcurrent, result_bind, exec_await, exec_pure, b64Enc_eq_ok_iff,
      Except.ok.injEq, Option.some.injEq, Prod.mk.injEq, henvelopes, ← hreaches, List.ne_nil_iff_exists_cons]
    constructor
    · rintro ⟨⟨ct, hct, hlength⟩, envelope, rest, rfl⟩
      exact ⟨_, envelope, rest, ct, hct, _, ⟨hlength, rfl⟩, _, rfl, rfl, rfl⟩
    · rintro ⟨_, envelope, rest, ct, hct, _, ⟨hlength, rfl⟩, _, rfl, rfl, rfl⟩
      exact ⟨⟨ct, hct, hlength⟩, envelope, rest, rfl⟩
  · rename_i hnone
    refine iff_of_false id ?_
    unfold encryptV3
    split
    · rename_i identity myDeviceId currentUserId hidentity hdevice hcurrent
      exact absurd hcurrent (hnone identity myDeviceId currentUserId hidentity hdevice)
    · rintro ⟨text, envelope, rest, heq⟩
      cases heq

/-- The texts of `encryptDirect` are the one of the fan-out, or those of `encrypt`. -/
theorem encryptDirect_of_fansOut (htag : AppendsTag P) (h : FansOut F w v content userId store) :
    ∃ text envelopes, ((encryptDirect F w v o content userId).exec store).1 = .ok (text, envelopes) ∧
      TextEncryption F (encode content) text := by
  obtain ⟨hhook, hseals⟩ := h
  obtain ⟨myDeviceId, hhook⟩ := Option.isSome_iff_exists.mp hhook
  obtain ⟨text, envelope, rest, hv3⟩ := (encryptV3_seals_iff F htag).mp hseals
  refine ⟨text, some (myDeviceId, envelope :: rest), ?_, encryptV3_encrypts F hv3⟩
  rcases hexec : (encryptV3 F w v content userId).exec store with ⟨_ | _, store'⟩ <;> rw [hexec] at hv3 <;>
    cases hv3
  simp only [encryptDirect, hhook, exec_bind, exec_tryCatch, hexec, exec_pure]

theorem encryptDirect_of_not_fansOut (htag : AppendsTag P) (h : ¬ FansOut F w v content userId store) :
    ∃ store', ((encryptDirect F w v o content userId).exec store).1 =
      ((encrypt F w o content userId).exec store').1.map (·, none) := by
  cases hhook : w.hookDeviceId with
  | none =>
    refine ⟨store, ?_⟩
    rw [← result_map]
    simp only [encryptDirect, hhook]
    rfl
  | some myDeviceId =>
    have hseals : ¬ SealsV3 F w v content userId store := fun hseals => h ⟨hhook ▸ rfl, hseals⟩
    simp only [encryptV3_seals_iff F htag, not_exists] at hseals
    simp only [encryptDirect, hhook]
    rcases hexec : (encryptV3 F w v content userId).exec store with ⟨e | v3, store'⟩ <;> rw [hexec] at hseals <;>
      refine ⟨store', ?_⟩ <;> rw [exec_bind, exec_tryCatch, hexec, ← result_map]
    · rfl
    · rcases v3 with _ | ⟨text, _ | ⟨envelope, rest⟩⟩
      · rfl
      · rfl
      · exact absurd rfl (hseals text envelope rest)

theorem forall_sent_iff {x : Except Thrown Utf16} :
    (∀ payload, x.map (·, (none : Option (Nat × List (Nat × Utf16)))) = .ok payload →
      TextEncryption F (encode content) payload.1) ↔
      ∀ text, x = .ok text → TextEncryption F (encode content) text := by
  simp only [map_eq_ok, forall_exists_index, and_imp, forall_apply_eq_imp_iff₂]

theorem encryptDirect_encrypts_iff (htag : AppendsTag P) :
    (∀ payload, ((encryptDirect F w v o content userId).exec store).1 = .ok payload →
      TextEncryption F (encode content) payload.1) ↔ Ready w ∨ FansOut F w v content userId store := by
  by_cases hfan : FansOut F w v content userId store
  · obtain ⟨text, envelopes, hexec, hencryption⟩ := encryptDirect_of_fansOut F htag (o := o) hfan
    refine iff_of_true (fun payload hpayload => ?_) (.inr hfan)
    rw [hexec] at hpayload
    obtain rfl := Except.ok.inj hpayload
    exact hencryption
  · obtain ⟨store', hexec⟩ := encryptDirect_of_not_fansOut F htag (o := o) hfan
    rw [hexec, or_iff_left hfan, forall_sent_iff]
    exact encrypt_encrypts_iff F htag

end

/-! ## Groups -/

/-- The functions for groups do not give their input back at once. -/
def GroupReady : Prop := w.e2e.identity.isSome ∧ w.e2e.initialized

/-- A sender key encrypts the text, and the database and the engine take what comes of it. -/
def SealsForGroup (maxArgs : Nat) (idb : Idb) (plaintext senderBytes : Bytes) : Prop :=
  (∃ s msg, SenderKey.SenderState.fromBytes F senderBytes = .ok s ∧ (SenderKey.encrypt s plaintext).2 = .ok msg) ∧
    idb.put = .ok () ∧ plaintext.length + 88 ≤ maxArgs

/-- A distribution does not throw. -/
def Distributes (idb : Idb) (memberUserIds : List Nat) (a : Attempt P) : Prop :=
  idb.put = .ok () ∧ (a.sealedKeys F w.maxArgs w.e2e memberUserIds = [] ∨ a.post.result = .ok ())

section
variable {w} {idb : Idb} {conversationId : Nat} {memberUserIds : List Nat} {a : Attempt P} {side : SenderSide P}

theorem encryptWith_eq_ok_iff {maxArgs : Nat} {senderBytes plaintext : Bytes} {text : Utf16} :
    ((encryptWith F maxArgs idb conversationId senderBytes plaintext).exec side).1 = .ok text ↔
      ∃ s msg, SenderKey.SenderState.fromBytes F senderBytes = .ok s ∧
        (SenderKey.encrypt s plaintext).2 = .ok msg ∧ idb.put = .ok () ∧
        (SenderKey.messageBytes F msg).length ≤ maxArgs ∧ text = groupText F msg := by
  simp only [encryptWith, onSenders, save, result_bind, exec_zoom, exec_await, exec_modify, exec_pure,
    b64Enc_eq_ok_iff, Except.ok.injEq, Prod.exists, Worker.groupSenderEncrypt_eq_ok_iff]
  constructor
  · rintro ⟨ciphertext, new, ⟨s, msg, hread, hmsg, rfl, rfl⟩, ⟨⟩, ⟨⟨⟩, hput, -⟩, _, ⟨hlength, rfl⟩, ⟨⟩, -, rfl⟩
    exact ⟨s, msg, hread, hmsg, hput, hlength, rfl⟩
  · rintro ⟨s, msg, hread, hmsg, hput, hlength, rfl⟩
    exact ⟨_, _, ⟨s, msg, hread, hmsg, rfl, rfl⟩, ⟨⟩, ⟨⟨⟩, hput, trivial⟩, _, ⟨hlength, rfl⟩, ⟨⟩, trivial, rfl⟩

theorem encryptWith_encrypts {maxArgs : Nat} {senderBytes plaintext : Bytes} {text : Utf16}
    (h : ((encryptWith F maxArgs idb conversationId senderBytes plaintext).exec side).1 = .ok text) :
    TextEncryption F plaintext text := by
  obtain ⟨s, msg, -, hmsg, -, -, rfl⟩ := (encryptWith_eq_ok_iff F).mp h
  exact .senderKey hmsg

theorem encryptWith_encrypts_file {maxArgs : Nat} {senderBytes data : Bytes} {text : Utf16}
    (h : ((encryptWith F maxArgs idb conversationId senderBytes data).exec side).1 = .ok text) :
    FileEncryption F data (encode text) := by
  obtain ⟨s, msg, -, hmsg, -, -, rfl⟩ := (encryptWith_eq_ok_iff F).mp h
  exact .senderKey hmsg

variable (conversationId side) in
theorem encryptWith_returns_iff (htag : AppendsTag P) {maxArgs : Nat} {senderBytes plaintext : Bytes} :
    (∃ text, ((encryptWith F maxArgs idb conversationId senderBytes plaintext).exec side).1 = .ok text) ↔
      SealsForGroup F maxArgs idb plaintext senderBytes := by
  simp only [encryptWith_eq_ok_iff, SealsForGroup]
  constructor
  · rintro ⟨_, s, msg, hread, hmsg, hput, hlength, rfl⟩
    rw [length_messageBytes F htag hmsg] at hlength
    exact ⟨⟨s, msg, hread, hmsg⟩, hput, hlength⟩
  · rintro ⟨⟨s, msg, hread, hmsg⟩, hput, hlength⟩
    rw [← length_messageBytes F htag hmsg] at hlength
    exact ⟨_, s, msg, hread, hmsg, hput, hlength, rfl⟩

theorem exec_loadSender {key : String} : (onSenders (load idb key)).exec side =
    (idb.get.map fun _ => side.groupSender key, side) := by
  rw [onSenders, exec_zoom, load, exec_bind, exec_await]
  rcases idb.get with e | _ <;> rfl

theorem groupReady_iff : GroupReady w ↔ ¬ (w.e2e.identity.isNone ∨ !w.e2e.initialized) := by
  simp [GroupReady, Option.isSome_iff_ne_none]

variable (conversationId side) in
/-- A distribution that returns has stored its sender. -/
theorem doDistribute_eq_ok_iff (h : GroupReady w) :
    ((GroupSending.doDistribute F w.maxArgs idb w.e2e conversationId memberUserIds a).exec side).1 = .ok () ↔
      Distributes F w idb memberUserIds a := by
  obtain ⟨hidentity, hinitialized⟩ := h
  obtain ⟨identity, hidentity⟩ := Option.isSome_iff_exists.mp hidentity
  simp only [GroupSending.doDistribute, hidentity, hinitialized, Distributes, Attempt.sealedKeys, onSenders, save,
    result_bind, exec_zoom, exec_await, exec_modify]
  by_cases hempty : a.payloads F w.maxArgs identity memberUserIds = []
  · simp [hempty, Subsingleton.elim (_ : Unit) ()]
  · simp only [ne_eq, hempty, not_false_eq_true, if_true, false_or, result_bind, exec_modify, exec_await]
    constructor
    · rintro ⟨⟨⟩, ⟨⟨⟩, hput, -⟩, ⟨⟩, -, hpost⟩
      exact ⟨hput, hpost⟩
    · rintro ⟨hput, hpost⟩
      exact ⟨⟨⟩, ⟨⟨⟩, hput, trivial⟩, ⟨⟩, trivial, hpost⟩

variable (conversationId side) in
theorem doDistribute_stores (h : GroupReady w) (hdistributes : Distributes F w idb memberUserIds a) :
    ((GroupSending.doDistribute F w.maxArgs idb w.e2e conversationId memberUserIds a).exec side).2.groupSender
      (senderKey conversationId) = some (a.sender.toBytes F) := by
  obtain ⟨identity, hidentity⟩ := Option.isSome_iff_exists.mp h.1
  rw [doDistribute_saved F hidentity h.2 hdistributes.1]
  exact Function.update_self ..

theorem encryptForGroup_of_not_ready (h : ¬ GroupReady w) {content : Utf16} :
    GroupSending.encryptForGroup F w.maxArgs idb w.e2e content conversationId = return content := by
  rw [GroupSending.encryptForGroup, if_pos (not_not.mp (mt groupReady_iff.mpr h))]

theorem exec_encryptForGroup (h : GroupReady w) {content : Utf16} :
    (GroupSending.encryptForGroup F w.maxArgs idb w.e2e content conversationId).exec side =
      match idb.get, side.groupSender (senderKey conversationId) with
      | .error e, _ => (.error e, side)
      | .ok _, none => (.ok content, side)
      | .ok _, some senderBytes =>
        (encryptWith F w.maxArgs idb conversationId senderBytes (encode content)).exec side := by
  rw [GroupSending.encryptForGroup, if_neg (groupReady_iff.mp h), exec_bind, exec_loadSender]
  rcases idb.get with e | _
  · rfl
  · rcases side.groupSender (senderKey conversationId) with _ | senderBytes <;> rfl

end

/-- A file is encrypted with the stored sender, or with one that is given to the members. -/
def HasSender (idb : Idb) (conversationId : Nat) (memberIds : Option (List Nat)) (a : Attempt P) (side : SenderSide P)
    (senderBytes : Bytes) : Prop :=
  idb.get = .ok () ∧
    match side.groupSender (senderKey conversationId), memberIds with
    | some stored, _ => stored = senderBytes
    | none, some (memberId :: rest) =>
      Distributes F w idb (memberId :: rest) a ∧ a.sender.toBytes F = senderBytes
    | none, some [] | none, none => False

/-- A file is encrypted for a group. -/
def SealsBinary (idb : Idb) (conversationId : Nat) (memberIds : Option (List Nat)) (a : Attempt P) (data : Bytes)
    (side : SenderSide P) : Prop :=
  GroupReady w ∧ ∃ senderBytes, HasSender F w idb conversationId memberIds a side senderBytes ∧
    SealsForGroup F w.maxArgs idb data senderBytes

section
variable {w} {idb : Idb} {conversationId : Nat} {memberIds : Option (List Nat)} {a : Attempt P} {side : SenderSide P}
  {data : Bytes}

theorem senderForBinary_eq_ok_iff (h : GroupReady w) {senderBytes : Bytes} :
    ((senderForBinary F w.maxArgs idb w.e2e conversationId memberIds a).exec side).1 = .ok (some senderBytes) ↔
      HasSender F w idb conversationId memberIds a side senderBytes := by
  rw [senderForBinary, result_bind]
  simp only [exec_loadSender, HasSender]
  rcases hget : idb.get with e | _
  · simp [Except.map]
  rcases hstored : side.groupSender (senderKey conversationId) with _ | stored
  · rcases memberIds with _ | _ | ⟨memberId, rest⟩
    · simp [Except.map]
    · simp [Except.map]
    · have hsaved : Distributes F w idb (memberId :: rest) a →
          (((onSenders (load idb (senderKey conversationId))).exec
            ((GroupSending.doDistribute F w.maxArgs idb w.e2e conversationId (memberId :: rest) a).exec side).2).1 =
            .ok (some senderBytes) ↔ a.sender.toBytes F = senderBytes) := by
        intro hdistributes
        rw [exec_loadSender, hget, doDistribute_stores F _ _ h hdistributes]
        simp [Except.map]
      simp only [Except.map, Except.ok.injEq, exists_eq_left', true_and, result_bind]
      constructor
      · rintro ⟨⟨⟩, hdistribute, hload⟩
        have hdistributes := (doDistribute_eq_ok_iff F _ _ h).mp hdistribute
        exact ⟨hdistributes, (hsaved hdistributes).mp hload⟩
      · rintro ⟨hdistributes, hsender⟩
        exact ⟨⟨⟩, (doDistribute_eq_ok_iff F _ _ h).mpr hdistributes, (hsaved hdistributes).mpr hsender⟩
  · simp [Except.map]

theorem encryptBinaryForGroup_of_not_ready (h : ¬ GroupReady w) :
    GroupSending.encryptBinaryForGroup F w.maxArgs idb w.e2e data conversationId memberIds a = return data := by
  rw [GroupSending.encryptBinaryForGroup, if_pos (not_not.mp (mt groupReady_iff.mpr h))]

theorem encryptBinaryForGroup_encrypts_iff (htag : AppendsTag P) :
    (∃ out, ((GroupSending.encryptBinaryForGroup F w.maxArgs idb w.e2e data conversationId memberIds a).exec
      side).1 = .ok out ∧ FileEncryption F data out) ↔
      SealsBinary F w idb conversationId memberIds a data side := by
  by_cases hready : GroupReady w
  · rw [GroupSending.encryptBinaryForGroup, if_neg (groupReady_iff.mp hready), SealsBinary, and_iff_right hready]
    simp only [result_bind, ← senderForBinary_eq_ok_iff F hready]
    constructor
    · rintro ⟨out, ⟨sender?, hsender, hout⟩, hencryption⟩
      cases sender? with
      | none =>
        obtain rfl := Except.ok.inj hout
        exact absurd hencryption (FileEncryption.not_self F htag)
      | some senderBytes =>
        obtain ⟨text, htext, -⟩ := result_bind.mp hout
        exact ⟨senderBytes, hsender, (encryptWith_returns_iff F _ _ htag).mp ⟨text, htext⟩⟩
    · rintro ⟨senderBytes, hsender, hseals⟩
      obtain ⟨text, htext⟩ := (encryptWith_returns_iff F conversationId
        ((senderForBinary F w.maxArgs idb w.e2e conversationId memberIds a).exec side).2 htag).mpr hseals
      exact ⟨_, ⟨some senderBytes, hsender, result_bind.mpr ⟨_, htext, rfl⟩⟩, encryptWith_encrypts_file F htext⟩
  · rw [encryptBinaryForGroup_of_not_ready F hready]
    refine iff_of_false ?_ fun hseals => hready hseals.1
    rintro ⟨out, hout, hencryption⟩
    obtain rfl := Except.ok.inj hout
    exact hencryption.not_self F htag

theorem encryptBinaryForGroup_result {out : Bytes}
    (h : ((GroupSending.encryptBinaryForGroup F w.maxArgs idb w.e2e data conversationId memberIds a).exec
      side).1 = .ok out) : out = data ∨ FileEncryption F data out := by
  by_cases hready : GroupReady w
  · rw [GroupSending.encryptBinaryForGroup, if_neg (groupReady_iff.mp hready), result_bind] at h
    obtain ⟨sender?, -, hout⟩ := h
    cases sender? with
    | none => exact .inl (Except.ok.inj hout).symm
    | some senderBytes =>
      obtain ⟨text, htext, hout⟩ := result_bind.mp hout
      obtain rfl := Except.ok.inj hout
      exact .inr (encryptWith_encrypts_file F htext)
  · rw [encryptBinaryForGroup_of_not_ready F hready] at h
    exact .inl (Except.ok.inj h).symm

end

/-! ## Forwarding to a group -/

namespace ForwardAttempt
variable (f : ForwardAttempt P)

/-- Prefetching finds no key of the client, and distributes one. -/
def lacksKey : Bool :=
  match w.e2e.currentUserId, f.entries with
  | some currentUserId, .ok entries =>
    !f.hasMySenderKey && !entries.any fun entry => entry = (currentUserId, some 2)
  | _, _ => false

/-- The stored sender, after prefetching. -/
def prefetchedSender (stored : Option Bytes) : Option Bytes :=
  if f.lacksKey w then some (f.prefetched.sender.toBytes F) else stored

/-- The stored sender encrypts, or without one the sender of a second distribution. -/
def SealsWith (content : Utf16) (targetMemberIds : List Nat) (stored : Option Bytes) : Prop :=
  f.opening.idb.get = .ok () ∧
    match stored with
    | some senderBytes => SealsForGroup F w.maxArgs f.opening.idb (encode content) senderBytes
    | none => Distributes F w f.distributeIdb targetMemberIds f.distributed ∧ f.secondIdb.get = .ok () ∧
      SealsForGroup F w.maxArgs f.secondIdb (encode content) (f.distributed.sender.toBytes F)

/-- Each step of the way to an encryption is taken. -/
def SealsForwarded (content : Utf16) (conversationId : Nat) (targetMemberIds : List Nat) (side : SenderSide P) :
    Prop :=
  GroupReady w ∧ (f.lacksKey w → Distributes F w f.prefetchIdb targetMemberIds f.prefetched) ∧
    f.SealsWith F w content targetMemberIds (f.prefetchedSender F w (side.groupSender (senderKey conversationId)))

end ForwardAttempt

section
variable {w} {f : ForwardAttempt P} {conversationId : Nat} {targetMemberIds : List Nat} {side : SenderSide P}
  {content : Utf16}

theorem exec_prefetch (h : GroupReady w) :
    (GroupSending.prefetchGroupSenderKeys F w.maxArgs f.prefetchIdb w.e2e f.entries f.hasMySenderKey conversationId
      targetMemberIds f.prefetched).exec side =
      if f.lacksKey w then (GroupSending.doDistribute F w.maxArgs f.prefetchIdb w.e2e conversationId targetMemberIds
        f.prefetched).exec side
      else (.ok (), side) := by
  obtain ⟨identity, hidentity⟩ := Option.isSome_iff_exists.mp h.1
  unfold GroupSending.prefetchGroupSenderKeys ForwardAttempt.lacksKey
  rw [hidentity, h.2]
  rcases w.e2e.currentUserId with _ | currentUserId <;> rcases f.entries with e | entries <;> try rfl
  dsimp only
  split <;> rfl

theorem encryptForGroup_encrypts_iff (htag : AppendsTag P) (h : GroupReady w) {idb : Idb} :
    (∃ text, ((GroupSending.encryptForGroup F w.maxArgs idb w.e2e content conversationId).exec side).1 = .ok text ∧
      TextEncryption F (encode content) text) ↔
      idb.get = .ok () ∧ ∃ senderBytes, side.groupSender (senderKey conversationId) = some senderBytes ∧
        SealsForGroup F w.maxArgs idb (encode content) senderBytes := by
  rw [exec_encryptForGroup F h]
  rcases idb.get with e | _
  · simp
  rcases hstored : side.groupSender (senderKey conversationId) with _ | senderBytes
  · exact iff_of_false (not_encrypted F htag rfl) (by simp)
  · simp only [true_and, Option.some.injEq, exists_eq_left',
      ← encryptWith_returns_iff F conversationId side htag]
    exact exists_congr fun text => and_iff_left_of_imp (encryptWith_encrypts F)

theorem encryptOrDistribute_encrypts_iff (htag : AppendsTag P) (h : GroupReady w) :
    (∃ text, ((encryptOrDistribute F w f content conversationId targetMemberIds).exec side).1 = .ok text ∧
      TextEncryption F (encode content) text) ↔
      f.SealsWith F w content targetMemberIds (side.groupSender (senderKey conversationId)) := by
  rw [encryptOrDistribute, exec_bind, exec_encryptForGroup F h]
  unfold ForwardAttempt.SealsWith
  rcases f.opening.idb.get with e | ⟨⟨⟩⟩
  · simp
  rcases side.groupSender (senderKey conversationId) with _ | senderBytes
  · dsimp only
    simp only [if_true, result_bind, true_and]
    constructor
    · rintro ⟨text, ⟨⟨⟩, hdistribute, htext⟩, hencryption⟩
      have hdistributes := (doDistribute_eq_ok_iff F _ _ h).mp hdistribute
      obtain ⟨hget, senderBytes, hstored, hseals⟩ :=
        (encryptForGroup_encrypts_iff F htag h).mp ⟨text, htext, hencryption⟩
      rw [doDistribute_stores F _ _ h hdistributes] at hstored
      obtain rfl := Option.some.inj hstored
      exact ⟨hdistributes, hget, hseals⟩
    · rintro ⟨hdistributes, hget, hseals⟩
      have hstored := doDistribute_stores F conversationId side h hdistributes
      obtain ⟨text, htext, hencryption⟩ := (encryptForGroup_encrypts_iff F htag h).mpr ⟨hget, _, hstored, hseals⟩
      exact ⟨text, ⟨⟨⟩, (doDistribute_eq_ok_iff F _ _ h).mpr hdistributes, htext⟩, hencryption⟩
  · dsimp only
    rw [eq_self, true_and, ← encryptWith_returns_iff F conversationId side htag]
    rcases hexec : (encryptWith F w.maxArgs f.opening.idb conversationId senderBytes (encode content)).exec side with
      ⟨e | text, side'⟩
    · simp
    · have hencryption := encryptWith_encrypts F (congrArg Prod.fst hexec)
      dsimp only
      rw [if_neg (hencryption.ne F htag)]
      exact iff_of_true ⟨_, rfl, hencryption⟩ ⟨_, rfl⟩

theorem reEncryptForGroup_of_not_ready (h : ¬ GroupReady w) :
    (reEncryptForGroup F w f content conversationId targetMemberIds).exec side = (.ok content, side) := by
  have hdistribute : ∀ {idb a}, GroupSending.doDistribute F w.maxArgs idb w.e2e conversationId targetMemberIds a =
      return () := by
    intro idb a
    unfold GroupSending.doDistribute
    split
    · rename_i identity hidentity hinitialized
      exact absurd ⟨hidentity ▸ rfl, hinitialized⟩ h
    · rfl
  have hprefetch : GroupSending.prefetchGroupSenderKeys F w.maxArgs f.prefetchIdb w.e2e f.entries f.hasMySenderKey
      conversationId targetMemberIds f.prefetched = return () := by
    unfold GroupSending.prefetchGroupSenderKeys
    split
    · rename_i identity currentUserId entries hidentity hinitialized hcurrent hentries
      exact absurd ⟨hidentity ▸ rfl, hinitialized⟩ h
    · rfl
  rw [reEncryptForGroup, hprefetch, encryptOrDistribute, encryptForGroup_of_not_ready F h,
    encryptForGroup_of_not_ready F h, hdistribute]
  simp only [exec_bind, exec_pure, if_true]

theorem reEncryptForGroup_encrypts_iff (htag : AppendsTag P) :
    (∃ text, ((reEncryptForGroup F w f content conversationId targetMemberIds).exec side).1 = .ok text ∧
      TextEncryption F (encode content) text) ↔
      f.SealsForwarded F w content conversationId targetMemberIds side := by
  by_cases hready : GroupReady w
  · rw [reEncryptForGroup, exec_bind, exec_prefetch F hready, ForwardAttempt.SealsForwarded, and_iff_right hready,
      ForwardAttempt.prefetchedSender]
    by_cases hlacks : f.lacksKey w
    · rw [if_pos hlacks, if_pos hlacks, imp_iff_right hlacks, ← doDistribute_eq_ok_iff F
        conversationId side hready]
      rcases hexec : (GroupSending.doDistribute F w.maxArgs f.prefetchIdb w.e2e conversationId targetMemberIds
        f.prefetched).exec side with ⟨e | _, side'⟩
      · simp
      · have hstores := doDistribute_stores F conversationId side hready
          ((doDistribute_eq_ok_iff F _ _ hready).mp (congrArg Prod.fst hexec))
        rw [hexec] at hstores
        rw [← hstores, ← encryptOrDistribute_encrypts_iff F htag hready]
        exact (and_iff_right rfl).symm
    · rw [if_neg hlacks, if_neg hlacks, ← encryptOrDistribute_encrypts_iff F htag hready]
      exact (and_iff_right fun h => absurd h hlacks).symm
  · rw [reEncryptForGroup_of_not_ready F hready]
    exact iff_of_false (not_encrypted F htag rfl) fun hseals => hready hseals.1

end

end Vesper.Client.OutgoingContent
