import Vesper.Client.Bundles
import Vesper.Client.Encoding
import Vesper.Group.StateBytes
import Vesper.Ratchet.StateBytes

/-!
# Calls of the crypto worker

The ratchet and group operations of `crypto.worker.ts`: a session is read from its bytes, used once, and
written back; an operation that throws returns no bytes.
-/

namespace Vesper.Client.Worker
open DoubleRatchet SenderKey
variable {P : Primitives} (F : ByteForms P)

/-! ## Double Ratchet -/

def ratchetInitSender (sk bobDhPub : Bytes) (fresh : P.Secret) : Except Thrown Bytes := do
  let sk ← exact32 sk
  let bobDhPub ← exact32 bobDhPub
  let state ← liftWasm (initSender P (F.block.symm sk) ⟨bobDhPub⟩ fresh)
  return state.toBytes F

def ratchetInitReceiver (sk ourDhSecret : Bytes) : Except Thrown Bytes := do
  let ourDhSecret ← exact32 ourDhSecret
  let sk ← exact32 sk
  return (initReceiver P (F.block.symm sk) (F.secret.symm ourDhSecret)).toBytes F

/-- `dh_pub(32) || pn(4 BE) || n(4 BE)` -/
def headerBytes (hdr : MessageHeader) : Bytes := hdr.dh.bytes.toList ++ (be32 hdr.pn ++ be32 hdr.n)

/-- The ciphertext with its header, and the new session. -/
def ratchetEncrypt (sessionBytes plaintext aad : Bytes) : Except Thrown (Bytes × Bytes) := do
  let state ← liftWasm (RatchetState.fromBytes F sessionBytes)
  let (state, result) := DoubleRatchet.encrypt state plaintext aad
  let (hdr, ct) ← liftWasm result
  return (headerBytes hdr ++ F.cipher ct, state.toBytes F)

/-- The header and the ciphertext of a message that is long enough. -/
def parseDr (data : Bytes) : Except Thrown (MessageHeader × P.Cipher) :=
  if h : data.length < 40 then .error (.js "message too short")
  else .ok ({
    dh := ⟨slice 32 data 0 (by omega)⟩
    pn := u32Be ((data.drop 32).take 4)
    n := u32Be ((data.drop 36).take 4) }, F.cipher.symm (data.drop 40))

/-- The plaintext and the new session. -/
def ratchetDecrypt (sessionBytes data aad : Bytes) (fresh : P.Secret) : Except Thrown (Bytes × Bytes) := do
  let state ← liftWasm (RatchetState.fromBytes F sessionBytes)
  let (hdr, ct) ← parseDr F data
  let (state, result) := DoubleRatchet.decrypt state hdr ct aad fresh
  let plaintext ← liftWasm result
  return (plaintext, state.toBytes F)

/-! ## Groups -/

def groupSenderEncrypt (senderBytes plaintext : Bytes) : Except Thrown (Bytes × Bytes) := do
  let state ← liftWasm (SenderState.fromBytes F senderBytes)
  let (state, result) := SenderKey.encrypt state plaintext
  let msg ← liftWasm result
  return (messageBytes F msg, state.toBytes F)

def groupReceiverDecrypt (receiverBytes data : Bytes) : Except Thrown (Bytes × Bytes) := do
  let state ← liftWasm (ReceiverState.fromBytes F receiverBytes)
  match parseMessage F data with
  | none => .error (.js "group message too short")
  | some msg =>
    let (state, result) := SenderKey.decrypt state msg
    let plaintext ← liftWasm result
    return (plaintext, state.toBytes F)

/-! ## What they do when nothing goes wrong -/

theorem ratchetEncrypt_eq_ok_iff {sessionBytes plaintext aad ciphertext newSessionBytes : Bytes} :
    ratchetEncrypt F sessionBytes plaintext aad = .ok (ciphertext, newSessionBytes) ↔
      ∃ s hdr c, RatchetState.fromBytes F sessionBytes = .ok s ∧
        (DoubleRatchet.encrypt s plaintext aad).2 = .ok (hdr, c) ∧
        headerBytes hdr ++ F.cipher c = ciphertext ∧
        (DoubleRatchet.encrypt s plaintext aad).1.toBytes F = newSessionBytes := by
  simp only [ratchetEncrypt, bind_eq_ok, liftWasm_eq_ok, pure_eq_ok, Prod.mk.injEq, Prod.exists, exists_and_left]

/-- The counter of the session moves: it is not stored as it was. -/
theorem ratchetEncrypt_ne {sessionBytes plaintext aad ciphertext newSessionBytes : Bytes}
    (h : ratchetEncrypt F sessionBytes plaintext aad = .ok (ciphertext, newSessionBytes)) :
    newSessionBytes ≠ sessionBytes := by
  obtain ⟨s, hdr, c, hread, hencrypt, -, rfl⟩ := (ratchetEncrypt_eq_ok_iff F).mp h
  intro heq
  have hstorable := storable_of_fromBytes F hread
  unfold DoubleRatchet.encrypt at hencrypt heq
  cases hcks : s.cks with
  | none =>
    rw [hcks] at hencrypt
    cases hencrypt
  | some cks =>
    rw [hcks] at heq
    have hnew : Storable { s with cks := some (kdfCk P cks).1, ns := s.ns + 1 } :=
      ⟨hstorable.count, hstorable.keys⟩
    rw [← heq, hnew.fromBytes_toBytes F] at hread
    have hns : s.ns + 1 = s.ns := congrArg RatchetState.ns (Except.ok.inj hread)
    simp at hns

theorem groupSenderEncrypt_eq_ok_iff {senderBytes plaintext data newSenderBytes : Bytes} :
    groupSenderEncrypt F senderBytes plaintext = .ok (data, newSenderBytes) ↔
      ∃ s msg, SenderState.fromBytes F senderBytes = .ok s ∧ (SenderKey.encrypt s plaintext).2 = .ok msg ∧
        messageBytes F msg = data ∧ (SenderKey.encrypt s plaintext).1.toBytes F = newSenderBytes := by
  simp only [groupSenderEncrypt, bind_eq_ok, liftWasm_eq_ok, pure_eq_ok, Prod.mk.injEq, exists_and_left]

theorem groupReceiverDecrypt_eq_ok_iff {receiverBytes data plaintext newReceiverBytes : Bytes} :
    groupReceiverDecrypt F receiverBytes data = .ok (plaintext, newReceiverBytes) ↔
      ∃ r msg, ReceiverState.fromBytes F receiverBytes = .ok r ∧ data = messageBytes F msg ∧
        (SenderKey.decrypt r msg).2 = .ok plaintext ∧
        (SenderKey.decrypt r msg).1.toBytes F = newReceiverBytes := by
  simp only [groupReceiverDecrypt, bind_eq_ok, liftWasm_eq_ok, exists_and_left]
  refine exists_congr fun r => and_congr_right fun _ => ?_
  split
  · rename_i hparse
    refine iff_of_false (fun heq => by cases heq) ?_
    rintro ⟨msg, hdata, -⟩
    rw [(parseMessage_eq_some_iff F).mpr hdata] at hparse
    cases hparse
  · rename_i msg hparse
    obtain rfl := (parseMessage_eq_some_iff F).mp hparse
    simp only [bind_eq_ok, liftWasm_eq_ok, pure_eq_ok, Prod.mk.injEq]
    constructor
    · rintro ⟨p, hp, rfl, hbytes⟩
      exact ⟨msg, rfl, hp, hbytes⟩
    · rintro ⟨msg', hmsg, hp, hbytes⟩
      obtain rfl := (messageBytes_inj F).mp hmsg
      exact ⟨plaintext, hp, rfl, hbytes⟩

theorem groupReceiverDecrypt_ne {receiverBytes data plaintext newReceiverBytes : Bytes}
    (h : groupReceiverDecrypt F receiverBytes data = .ok (plaintext, newReceiverBytes)) :
    newReceiverBytes ≠ receiverBytes := by
  obtain ⟨r, msg, hread, -, hdecrypt, rfl⟩ := (groupReceiverDecrypt_eq_ok_iff F).mp h
  cases hverify : r.signingPub.verify P msg.payload msg.signature with
  | error e =>
    rw [decrypt_unverified hverify] at hdecrypt
    cases hdecrypt
  | ok =>
    rw [decrypt_verified hverify] at hdecrypt ⊢
    cases hkey : (r.messageKeyFor msg.iteration).2 with
    | error e =>
      rw [hkey] at hdecrypt
      cases hdecrypt
    | ok mk => exact toBytes_messageKeyFor_ne F hread hkey

end Vesper.Client.Worker
