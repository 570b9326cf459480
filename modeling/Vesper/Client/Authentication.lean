import Vesper.Client.Establishment
import Vesper.Crypto.SenderKey

/-!
# Who starts a session

Neither the init path of `drDecrypt` nor `openDistMsg` looks at whom the identity key of an init
message belongs to. What any party builds with its own key is accepted under any sender id, so the
accepted key is the one published for the sender exactly when the builder holds it.
-/

namespace Vesper.Client
open DoubleRatchet X3dh SenderKey
variable {P : Primitives}

/-! ## Distribution envelopes -/

/-- AES-GCM of the Web Crypto API, without associated data. -/
def subtleEncrypt (key : P.Block) (iv data : Bytes) : Except Thrown P.Cipher :=
  (aeadEncrypt P key iv data []).mapError fun _ => .js "OperationError"

def subtleDecrypt (key : P.Block) (iv : Bytes) (data : P.Cipher) : Except Thrown Bytes :=
  (aeadDecrypt P key iv data []).mapError fun _ => .js "OperationError"

/-- `x3dh_init(65) | nonce(12) | aes-gcm-ct` -/
structure Envelope (P : Primitives) where
  init : Bytes
  iv : Bytes
  ct : P.Cipher

def sealDistMsg (ikDh : P.Secret) (distMsg : Bytes) (recipientBundle : X3dhBundle P)
    (ek : P.Secret) (iv : Bytes) : Except Thrown (Envelope P) := do
  let out ← liftWasm (x3dhSend ikDh recipientBundle ek)
  let ct ← subtleEncrypt out.sk iv distMsg
  return { init := initBytes out.init, iv, ct }

/-- Every exception becomes `null`. -/
def openDistMsg (identity : IdentityKeys P) (envelope : Envelope P) : Option Bytes :=
  let plaintext := do
    let sk ← receiveInit identity.ikDhSecret identity.spkSecret envelope.init
    subtleDecrypt sk envelope.iv envelope.ct
  plaintext.toOption

/-- The `group_receiver` object store. -/
abbrev GroupReceiverStore (P : Primitives) := String → Option (ReceiverState P)

def receiverKey (conversationId senderId : Nat) : String :=
  toString conversationId ++ ":" ++ toString senderId

/-- No two numbers are written alike. -/
theorem toString_nat_inj {m n : Nat} : toString m = toString n ↔ m = n := by
  refine ⟨fun h => ?_, congrArg _⟩
  have hdigits : Nat.toDigits 10 m = Nat.toDigits 10 n := String.ofList_inj.mp h
  rw [← Nat.ofDigitChars_ten_toDigits (n := m), hdigits, Nat.ofDigitChars_ten_toDigits]

/-- An entry of `sender-keys/for-me`, its `encryptedKey` decoded. -/
structure SenderKeyEntry (P : Primitives) where
  senderId : Nat
  version : Option Nat
  encryptedKey : Option (Envelope P)

/-- What `prefetchGroupSenderKeys` does with one entry. -/
def prefetchEntry (identity : IdentityKeys P) (store : GroupReceiverStore P) (conversationId : Nat)
    (entry : SenderKeyEntry P) : GroupReceiverStore P :=
  match entry.version, entry.encryptedKey with
  | some 2, some envelope =>
    if (store (receiverKey conversationId entry.senderId)).isSome then store
    else match openDistMsg identity envelope with
      | none => store
      | some distMsg =>
        match receiverFromDist distMsg with
        | none => store
        | some receiver =>
          Function.update store (receiverKey conversationId entry.senderId) (some receiver)
  | _, _ => store

/-! ## What is accepted -/

/-- The identity key in an init message is the published one. -/
def Authored (published : X3dhBundle P) (initMsg : Bytes) : Prop :=
  ∃ init, parseInit initMsg = .ok init ∧ init.ikDh = published.ikDh

/-- If `drDecrypt` accepts the wire on its init path, so not with the stored session, then the
initiator's identity key is the one published for the sender. -/
def SessionAuthentic (identity : IdentityKeys P) (store : RatchetStore P) (myId senderId : Nat)
    (published : X3dhBundle P) (wire : Wire P) (fresh : P.Secret) : Prop :=
  ∀ initMsg plaintext, wire.init = some initMsg →
    (∀ s, store (pairKey myId senderId) = some s → ∃ e, ratchetDecrypt s wire.dr fresh = .error e) →
    (drDecrypt identity store myId senderId wire fresh).2 = .ok (some plaintext) →
    Authored published initMsg

/-- If the entry gives the sender a sender key, its envelope was sealed by the key published for
that sender. -/
def SenderKeyAuthentic (identity : IdentityKeys P) (store : GroupReceiverStore P)
    (conversationId senderId : Nat) (published : X3dhBundle P) (envelope : Envelope P) : Prop :=
  store (receiverKey conversationId senderId) = none →
    prefetchEntry identity store conversationId ⟨senderId, some 2, some envelope⟩
      (receiverKey conversationId senderId) ≠ none →
    Authored published envelope.init

theorem authored_initBytes {published : X3dhBundle P} {init : X3dhInitMessage} :
    Authored published (initBytes init) ↔ init.ikDh = published.ikDh := by
  simp [Authored]

variable {identity : IdentityKeys P} {author ek fresh : P.Secret} {myId senderId : Nat}
  {store : RatchetStore P} {published : X3dhBundle P}

/-- Anyone's envelope opens. -/
theorem openDistMsg_sealDistMsg (hcomm : DhCommutes P) (haead : AeadInverts P) {distMsg iv : Bytes}
    {envelope : Envelope P}
    (hseal : sealDistMsg author distMsg (buildBundle identity) ek iv = .ok envelope) :
    openDistMsg identity envelope = some distMsg := by
  simp only [sealDistMsg, bind_eq_ok, liftWasm_eq_ok, pure_eq_ok] at hseal
  obtain ⟨out, hout, ct, hct, rfl⟩ := hseal
  have hsk : receiveInit identity.ikDhSecret identity.spkSecret (initBytes out.init) =
      .ok out.sk :=
    receiveInit_initBytes.mpr (x3dhReceive_of_x3dhSend hcomm rfl rfl rfl hout)
  have hopen : subtleDecrypt out.sk iv ct = .ok distMsg :=
    mapError_eq_ok.mpr (haead _ _ _ _ _ (mapError_eq_ok.mp hct))
  simp only [openDistMsg, hsk, bind, Except.bind, hopen]
  rfl

/-- Anyone's first wire is read, whoever it is attributed to. -/
theorem drDecrypt_sessionEncrypt (hcomm : DhCommutes P) (haead : AeadInverts P) {m : Send P}
    {session : RatchetState P} {wire : Wire P}
    (hsend : sessionEncrypt author (.ok (buildBundle identity)) none m.plaintext m.ek m.fresh =
      .ok (session, wire))
    (hstored : ∀ s, store (pairKey myId senderId) = some s →
      ∃ e, ratchetDecrypt s wire.dr fresh = .error e) :
    (drDecrypt identity store myId senderId wire fresh).2 = .ok (some m.plaintext) := by
  obtain ⟨sk, x, y, init, session', -, -, hinit, hresp, -⟩ := responded hcomm haead hsend fresh
  simp only [drDecrypt, decryptAt, sessionDecrypt, hinit]
  cases hs : store (pairKey myId senderId) with
  | none => simp only [hresp, Except.map]
  | some s =>
    obtain ⟨e, he⟩ := hstored s hs
    simp only [he, hresp, Except.map]

theorem sessionAuthentic_iff (hcomm : DhCommutes P) (haead : AeadInverts P) {m : Send P}
    {session : RatchetState P} {wire : Wire P}
    (hsend : sessionEncrypt author (.ok (buildBundle identity)) none m.plaintext m.ek m.fresh =
      .ok (session, wire))
    (hstored : ∀ s, store (pairKey myId senderId) = some s →
      ∃ e, ratchetDecrypt s wire.dr fresh = .error e) :
    SessionAuthentic identity store myId senderId published wire fresh ↔
      P.publicKey author = published.ikDh := by
  obtain ⟨-, -, -, init, -, -, hik, hinit, -⟩ := responded hcomm haead hsend fresh
  apply Iff.intro
  · intro h
    have := h _ _ hinit hstored (drDecrypt_sessionEncrypt hcomm haead hsend hstored)
    rw [authored_initBytes, hik] at this
    exact this
  · intro h initMsg plaintext hinit' _ _
    rw [hinit] at hinit'
    cases hinit'
    rw [authored_initBytes, hik, h]

theorem senderKeyAuthentic_iff (hcomm : DhCommutes P) (haead : AeadInverts P) {distMsg iv : Bytes}
    {envelope : Envelope P} {receivers : GroupReceiverStore P} {conversationId : Nat}
    (hseal : sealDistMsg author distMsg (buildBundle identity) ek iv = .ok envelope)
    (hdist : 72 ≤ distMsg.length)
    (hreceiver : receivers (receiverKey conversationId senderId) = none) :
    SenderKeyAuthentic identity receivers conversationId senderId published envelope ↔
      P.publicKey author = published.ikDh := by
  have hopen := openDistMsg_sealDistMsg hcomm haead hseal
  simp only [sealDistMsg, bind_eq_ok, liftWasm_eq_ok, pure_eq_ok] at hseal
  obtain ⟨out, hout, ct, -, rfl⟩ := hseal
  obtain ⟨-, rfl⟩ := (x3dhSend_ok_iff rfl).mp hout
  apply Iff.intro
  · intro h
    refine authored_initBytes.mp (h hreceiver ?_)
    obtain ⟨receiver, hr⟩ := Option.isSome_iff_exists.mp (receiverFromDist_isSome (P := P) hdist)
    simp [prefetchEntry, hreceiver, hopen, hr]
  · exact fun h _ _ => authored_initBytes.mpr h

/-- The key pair 50 is not that of the account 1, the sample identity 10. -/
def impostorWire : Except Thrown (RatchetState symbolic × Wire symbolic) :=
  sessionEncrypt (keyPair 50) (.ok (buildBundle (sampleIdentity 20))) none [7] (keyPair 51)
    (keyPair 52)

def impostorEnvelope : Except Thrown (Envelope symbolic) :=
  sealDistMsg (keyPair 50) (List.replicate 72 0) (buildBundle (sampleIdentity 20)) (keyPair 53)
    (List.replicate 12 0)

theorem impostorWire_isSome : impostorWire.toOption.isSome := by decide +kernel

theorem impostorEnvelope_isSome : impostorEnvelope.toOption.isSome := by decide +kernel

end Vesper.Client
