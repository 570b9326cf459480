import Vesper.Client.WorkerCalls
import Vesper.Crypto.ByteParser
import Vesper.Crypto.PinKey
import Vesper.Crypto.SyncChunks

/-!
# Decoders without panics

What reads bytes from outside, on slices: the stored states, the blob of a key under a PIN, a chunk of a sync
and the parsers of the WASM bindings. Each finds what its counterpart on lists finds, whatever the bytes.
-/

namespace Vesper.Decoders
open Slices ByteReader ByteParser
open DoubleRatchet (RatchetState MessageHeader Skipped SERIAL_VERSION)
open SenderKey (SenderState ReceiverState SenderKeyMessage)
open PinKey (EncryptedKeyBlob BLOB_VERSION)
open Client (Thrown)
open X3dh (X3dhBundle X3dhInitMessage)
variable {P : Primitives} (F : ByteForms P) {t : Target}

/-! ## The stored states -/

def readOption : Parser t (Option (Vector UInt8 32)) := do
  let present ← readU8
  if present = 1 then return some (← readFixed 32) else return none

/-- A round of the loop of `RatchetState::from_bytes`. -/
def readSkipped (mkskipped : Skipped P) : Parser t (Skipped P) := do
  let keyLen ← readU16
  let dhKey ← readBytes (asUsize t keyLen.toNat)
  let iter ← readU32
  let mk ← readFixed 32
  return mkskipped.insert (dhKey, iter) (F.block.symm mk)

def readRatchetState : Parser t (RatchetState P) := do
  let version ← readU8
  if version ≠ SERIAL_VERSION then throw invalid
  else
    let dhs ← readFixed 32
    let dhr ← readOption
    let rk ← readFixed 32
    let cks ← readOption
    let ckr ← readOption
    let ns ← readU32
    let nr ← readU32
    let pn ← readU32
    let count ← readU32
    let mkskipped ← forCount (readSkipped F) (asUsize t count.toNat) ∅
    return {
      dhs := F.secret.symm dhs, dhr := dhr.map .mk, rk := F.block.symm rk, cks := cks.map F.block.symm,
      ckr := ckr.map F.block.symm, ns, nr, pn, mkskipped }

/-- `RatchetState::from_bytes` -/
def ratchetStateFromBytes (data : Slice t) : Except Fault (RatchetState P) := run (readRatchetState F) data

def readSenderState : Parser t (SenderState P) := do
  let version ← readU8
  if version ≠ 0x01 then throw invalid
  else
    let keyId ← readU32
    let iteration ← readU32
    let chainKey ← readFixed 32
    let signingSeed ← readFixed 32
    return { keyId, iteration, chainKey := F.block.symm chainKey, signingKey := F.signingKey.symm signingSeed }

/-- `SenderState::from_bytes` -/
def senderStateFromBytes (data : Slice t) : Except Fault (SenderState P) := run (readSenderState F) data

/-- A round of the loop of `ReceiverState::from_bytes`. -/
def readSkippedKey (skipped : Std.ExtTreeMap UInt32 P.Block) : Parser t (Std.ExtTreeMap UInt32 P.Block) := do
  let iter ← readU32
  let mk ← readFixed 32
  return skipped.insert iter (F.block.symm mk)

def readReceiverState : Parser t (ReceiverState P) := do
  let version ← readU8
  if version ≠ 0x01 then throw invalid
  else
    let keyId ← readU32
    let iteration ← readU32
    let chainKey ← readFixed 32
    let signingPub ← readFixed 32
    let count ← readU32
    let skipped ← forCount (readSkippedKey F) (asUsize t count.toNat) ∅
    return { keyId, iteration, chainKey := F.block.symm chainKey, signingPub := ⟨signingPub⟩, skipped }

/-- `ReceiverState::from_bytes` -/
def receiverStateFromBytes (data : Slice t) : Except Fault (ReceiverState P) := run (readReceiverState F) data

/-! ## Blobs and chunks -/

/-- `u32::from_be_bytes(data[start..stop].try_into().unwrap())` -/
def u32At (data : Slice t) (start stop : Nat) : Except Fault UInt32 := do
  return SenderKey.u32Be (← array .panic 4 data start stop).toList

def deserializeBlob (data : Slice t) : Except Fault EncryptedKeyBlob :=
  if data.len < 29 + 12 + 16 then .error (.error .invalidCiphertext)
  else do
    let version ← index .panic data 0
    if version ≠ BLOB_VERSION then .error (.error .invalidKey)
    else
      let mCost ← u32At data 1 5
      let tCost ← u32At data 5 9
      let pCost ← u32At data 9 13
      let salt ← copyFromSlice .panic 16 (← range .panic data 13 29)
      let nonce ← copyFromSlice .panic 12 (← range .panic data 29 41)
      let ciphertext ← rangeFrom .panic data 41
      return { params := { mCost, tCost, pCost }, salt, nonce, ciphertext := ciphertext.bytes }

/-- What `open_chunk` hands to `aead_decrypt`. -/
def splitChunk (data : Slice t) : Except Fault (SealedChunk P) :=
  if data.len < 12 + 16 then .error (.error .invalidCiphertext)
  else do
    let nonce ← array .panic 12 data 0 12
    let ct ← rangeFrom .panic data 12
    return { nonce, ct := F.cipher.symm ct.bytes }

/-! ## The bindings -/

/-- A panic is thrown too. -/
def trap (message : String) : Thrown := .wasm (.panic message)

def to32 (b : Slice t) : Except Thrown (Vector UInt8 32) :=
  match tryInto 32 b with
  | some v => .ok v
  | none => .error (.js "expected 32 bytes")

def u32Be (b : Slice t) : Except Thrown UInt32 := do
  return SenderKey.u32Be (← unwrap trap (tryInto 4 b)).toList

def parseBundle (bytes : Slice t) : Except Thrown (X3dhBundle P) :=
  if bytes.len < 161 then .error (.js "bundle too short")
  else do
    let ikSign ← to32 (← rangeTo trap bytes 32)
    let ikDh ← to32 (← range trap bytes 32 64)
    let spk ← to32 (← range trap bytes 64 96)
    let spkSig ← array trap 64 bytes 96 160
    let present ← index trap bytes 160
    let opk ←
      if present ≠ 0 then
        if bytes.len < 193 then .error (.js "bundle: opk_present=1 but no opk bytes")
        else pure (some (← to32 (← range trap bytes 161 193)))
      else pure none
    return {
      ikSign := ⟨ikSign⟩, ikDh := ⟨ikDh⟩, spk := ⟨spk⟩, spkSig := F.signature.symm spkSig, opk := opk.map .mk }

/-- The init message as `x3dh_receive` reads it. -/
def readInit (initMsgBytes : Slice t) : Except Thrown X3dhInitMessage := do
  let ikDh ← to32 (← rangeTo trap initMsgBytes 32)
  let ek ← to32 (← range trap initMsgBytes 32 64)
  let opkUsed ← index trap initMsgBytes 64
  return { ikDh := ⟨ikDh⟩, ek := ⟨ek⟩, opkUsed := opkUsed ≠ 0 }

def x3dhReceive (ourIkDhSecret ourSpkSecret ourOpkSecret initMsgBytes : Slice t) : Except Thrown Bytes :=
  if initMsgBytes.len < 65 then .error (.js "init message too short")
  else do
    let ourIkDh ← to32 ourIkDhSecret
    let ourSpk ← to32 ourSpkSecret
    let ourOpk ← if ourOpkSecret.len = 0 then pure none else pure (some (← to32 ourOpkSecret))
    let init ← readInit initMsgBytes
    let sk ← Client.liftWasm
      (X3dh.x3dhReceive (F.secret.symm ourIkDh) (F.secret.symm ourSpk) (ourOpk.map F.secret.symm) init)
    return (F.block sk).toList

/-- The header and the ciphertext that `RatchetSession::decrypt` reads. -/
def ratchetWire (data : Slice t) : Except Thrown (MessageHeader × P.Cipher) :=
  if data.len < 40 then .error (.js "message too short")
  else do
    let dh ← to32 (← rangeTo trap data 32)
    let pn ← u32Be (← range trap data 32 36)
    let n ← u32Be (← range trap data 36 40)
    let ciphertext ← rangeFrom trap data 40
    return ({ dh := ⟨dh⟩, pn, n }, F.cipher.symm ciphertext.bytes)

/-- The message that `GroupReceiverSession::decrypt` reads. -/
def groupWire (data : Slice t) : Except Thrown (SenderKeyMessage P) :=
  if data.len < 72 then .error (.js "group message too short")
  else do
    let keyId ← u32Be (← rangeTo trap data 4)
    let iteration ← u32Be (← range trap data 4 8)
    let signature ← array trap 64 data 8 72
    let ciphertext ← rangeFrom trap data 72
    return {
      keyId, iteration, signature := F.signature.symm signature, ciphertext := F.cipher.symm ciphertext.bytes }

def fromDistributionMessage (distMsg : Slice t) : Except Thrown (ReceiverState P) :=
  if distMsg.len < 72 then .error (.js "distribution message too short")
  else do
    let keyId ← u32Be (← rangeTo trap distMsg 4)
    let iteration ← u32Be (← range trap distMsg 4 8)
    let chainKey ← array trap 32 distMsg 8 40
    let signingPub ← array trap 32 distMsg 40 72
    return SenderKey.processDistributionMessage
      { keyId, iteration, chainKey := F.block.symm chainKey, signingPub := ⟨signingPub⟩ }

/-! ## What they find -/

section
variable {F}

theorem follows_readOption : Follows (t := t) readOption DoubleRatchet.readOption :=
  follows_readU8.bind fun _ => .ite ((follows_readFixed (by decide)).bind fun _ => .pure _) (.pure _)

theorem follows_readSkipped (mkskipped : Skipped P) : Follows (t := t) (readSkipped F mkskipped)
    (DoubleRatchet.readSkipped F >>= fun entry => pure (mkskipped.insert entry.1 entry.2)) := by
  simp only [DoubleRatchet.readSkipped, bind_assoc, pure_bind]
  refine follows_readU16.bind fun keyLen => ?_
  have hlt := keyLen.toNat_lt
  rw [asUsize_eq (Nat.lt_trans hlt (by decide))]
  exact (follows_readBytes (Nat.lt_trans hlt (by decide))).bind fun _ => follows_readU32.bind fun _ =>
    (follows_readFixed (by decide)).bind fun _ => .pure _

theorem follows_readRatchetState : Follows (t := t) (readRatchetState F) (RatchetState.read F) := by
  refine follows_readU8.bind fun version => .ite .throw ?_
  refine (follows_readFixed (by decide)).bind fun dhs => follows_readOption.bind fun dhr =>
    (follows_readFixed (by decide)).bind fun rk => follows_readOption.bind fun cks =>
    follows_readOption.bind fun ckr => follows_readU32.bind fun ns => follows_readU32.bind fun nr =>
    follows_readU32.bind fun pn => follows_readU32.bind fun count => ?_
  rw [asUsize_eq count.toNat_lt]
  exact (Follows.loop follows_readSkipped _ _).bind fun _ => .pure _

theorem follows_readSenderState : Follows (t := t) (readSenderState F) (SenderState.read F) :=
  follows_readU8.bind fun _ => .ite .throw
    (follows_readU32.bind fun _ => follows_readU32.bind fun _ => (follows_readFixed (by decide)).bind fun _ =>
      (follows_readFixed (by decide)).bind fun _ => .pure _)

theorem follows_readSkippedKey (skipped : Std.ExtTreeMap UInt32 P.Block) :
    Follows (t := t) (readSkippedKey F skipped)
      (SenderKey.readSkipped F >>= fun entry => pure (skipped.insert entry.1 entry.2)) := by
  simp only [SenderKey.readSkipped, bind_assoc, pure_bind]
  exact follows_readU32.bind fun _ => (follows_readFixed (by decide)).bind fun _ => .pure _

theorem follows_readReceiverState : Follows (t := t) (readReceiverState F) (ReceiverState.read F) := by
  refine follows_readU8.bind fun version => .ite .throw (follows_readU32.bind fun keyId =>
    follows_readU32.bind fun iteration => (follows_readFixed (by decide)).bind fun chainKey =>
    (follows_readFixed (by decide)).bind fun signingPub => follows_readU32.bind fun count => ?_)
  rw [asUsize_eq count.toNat_lt]
  exact (Follows.loop follows_readSkippedKey _ _).bind fun _ => .pure _

end

/-- The stored states are read as they are from lists. -/
theorem ratchetStateFromBytes_eq (data : Slice t) :
    ratchetStateFromBytes F data = RatchetState.fromBytes F data.bytes := follows_readRatchetState.run data

theorem senderStateFromBytes_eq (data : Slice t) :
    senderStateFromBytes F data = SenderState.fromBytes F data.bytes := follows_readSenderState.run data

theorem receiverStateFromBytes_eq (data : Slice t) :
    receiverStateFromBytes F data = ReceiverState.fromBytes F data.bytes := follows_readReceiverState.run data

section
variable {data : Slice t} {start stop : Nat} {β : Type}

theorem u32At_eq (h : start + 4 = stop) (h' : stop ≤ data.bytes.length) :
    u32At data start stop = .ok (SenderKey.u32Be ((data.bytes.drop start).take 4)) := by
  rw [u32At, array_eq h h']
  rfl

theorem bind_to32 (h : start + 32 = stop) (h' : stop ≤ data.bytes.length)
    (f : Vector UInt8 32 → Except Thrown β) :
    (range trap data start stop >>= fun part => to32 part >>= f) =
      f (slice 32 data.bytes start (by omega)) := by
  rw [range_eq h h']
  show (to32 (data.part start 32) >>= f) = _
  rw [to32, tryInto_part (by omega)]
  rfl

theorem bind_u32Be (h : start + 4 = stop) (h' : stop ≤ data.bytes.length) (f : UInt32 → Except Thrown β) :
    (range trap data start stop >>= fun part => u32Be part >>= f) =
      f (SenderKey.u32Be ((data.bytes.drop start).take 4)) := by
  rw [range_eq h h']
  show (u32Be (data.part start 4) >>= f) = _
  rw [u32Be, tryInto_part (by omega)]
  rfl

variable {ε : Type} {panic : String → ε}

theorem bind_array {n : Nat} (h : start + n = stop) (h' : stop ≤ data.bytes.length)
    (f : Vector UInt8 n → Except ε β) :
    (array panic n data start stop >>= f) = f (slice n data.bytes start (by omega)) := by
  rw [array_eq h h']
  rfl

theorem bind_copy {n : Nat} (h : start + n = stop) (h' : stop ≤ data.bytes.length)
    (f : Vector UInt8 n → Except ε β) :
    (range panic data start stop >>= fun part => copyFromSlice panic n part >>= f) =
      f (slice n data.bytes start (by omega)) := by
  rw [range_eq h h']
  show (copyFromSlice panic n (data.part start n) >>= f) = _
  rw [copyFromSlice_part (by omega)]
  rfl

theorem bind_rangeFrom (h : start ≤ data.bytes.length) (f : Slice t → Except ε β) :
    (rangeFrom panic data start >>= f) = f (data.part start (data.len - start)) := by
  rw [rangeFrom_eq h]
  rfl

theorem bind_index {i : Nat} (h : i < data.bytes.length)
    (f : UInt8 → Except ε β) : (index panic data i >>= f) = f data.bytes[i] := by
  rw [index_eq h]
  rfl

end

theorem deserializeBlob_eq (data : Slice t) : deserializeBlob data = PinKey.deserializeBlob data.bytes := by
  unfold deserializeBlob PinKey.deserializeBlob Slice.len
  by_cases hshort : data.bytes.length < 29 + 12 + 16
  · rw [if_pos hshort, dif_pos hshort]
  · have hle : 57 ≤ data.bytes.length := Nat.le_of_not_lt hshort
    rw [if_neg hshort, dif_neg hshort, bind_index (by omega)]
    refine ite_congr rfl (fun _ => rfl) fun _ => ?_
    rw [u32At_eq rfl (by omega), u32At_eq rfl (by omega), u32At_eq rfl (by omega)]
    show (range Fault.panic data 13 29 >>= fun part => copyFromSlice Fault.panic 16 part >>= _) = _
    rw [bind_copy (n := 16) rfl (by omega), bind_copy (n := 12) rfl (by omega), bind_rangeFrom (by omega),
      Slice.bytes_part]
    rfl

theorem splitChunk_eq (data : Slice t) : splitChunk F data =
    if h : data.bytes.length < 28 then .error invalid
    else .ok { nonce := slice 12 data.bytes 0 (by omega), ct := F.cipher.symm (data.bytes.drop 12) } := by
  unfold splitChunk Slice.len
  by_cases hshort : data.bytes.length < 28
  · rw [if_pos hshort, dif_pos hshort]
    rfl
  · have hle : 28 ≤ data.bytes.length := Nat.le_of_not_lt hshort
    rw [if_neg hshort, dif_neg hshort, bind_array (n := 12) rfl (by omega), bind_rangeFrom (by omega), Slice.bytes_part]
    rfl

theorem parseBundle_eq (bytes : Slice t) : parseBundle F bytes = Client.parseBundle F bytes.bytes := by
  unfold parseBundle Client.parseBundle Slice.len
  by_cases hshort : bytes.bytes.length < 161
  · rw [if_pos hshort, dif_pos hshort]
  · have hle : 161 ≤ bytes.bytes.length := Nat.le_of_not_lt hshort
    rw [if_neg hshort, dif_neg hshort]
    simp only [rangeTo]
    rw [bind_to32 rfl (by omega), bind_to32 rfl (by omega), bind_to32 rfl (by omega), bind_array rfl (by omega),
      bind_index (by omega)]
    refine ite_congr rfl (fun _ => ?_) fun _ => rfl
    by_cases hopk : bytes.bytes.length < 193
    · rw [if_pos hopk, dif_pos hopk]
      rfl
    · rw [if_neg hopk, dif_neg hopk, bind_to32 rfl (by omega)]
      rfl

theorem to32_eq (b : Slice t) : to32 b = Client.exact32 b.bytes := by
  unfold to32 Client.exact32 tryInto
  by_cases h : b.bytes.length = 32
  · rw [dif_pos h, dif_pos h]
  · rw [dif_neg h, dif_neg h]

theorem readInit_eq {initMsgBytes : Slice t} (h : ¬initMsgBytes.bytes.length < 65) :
    readInit initMsgBytes = Client.parseInit initMsgBytes.bytes := by
  rw [readInit, Client.parseInit, dif_neg h]
  simp only [rangeTo]
  rw [bind_to32 rfl (by omega), bind_to32 rfl (by omega), bind_index (by omega)]
  rfl

theorem x3dhReceive_eq (ourIkDhSecret ourSpkSecret ourOpkSecret initMsgBytes : Slice t) :
    x3dhReceive F ourIkDhSecret ourSpkSecret ourOpkSecret initMsgBytes =
      Client.x3dhReceiveBytes F ourIkDhSecret.bytes ourSpkSecret.bytes ourOpkSecret.bytes
        initMsgBytes.bytes := by
  unfold x3dhReceive Client.x3dhReceiveBytes Slice.len
  by_cases hshort : initMsgBytes.bytes.length < 65
  · rw [if_pos hshort, Client.parseInit, dif_pos hshort]
    rfl
  · have hinit : ∃ init, Client.parseInit initMsgBytes.bytes = .ok init :=
      ⟨_, by rw [Client.parseInit, dif_neg hshort]⟩
    obtain ⟨init, hinit⟩ := hinit
    rw [if_neg hshort, readInit_eq hshort, hinit, to32_eq, to32_eq, to32_eq]
    cases Client.exact32 ourIkDhSecret.bytes with
    | error e => rfl
    | ok ourIkDh =>
      cases Client.exact32 ourSpkSecret.bytes with
      | error e => rfl
      | ok ourSpk =>
        rw [Client.readOpk]
        cases ourOpkSecret.bytes with
        | nil => rfl
        | cons x rest =>
          cases Client.exact32 (x :: rest) with
          | error e => rfl
          | ok ourOpk => rfl

theorem ratchetWire_eq (data : Slice t) : ratchetWire F data = Client.Worker.parseDr F data.bytes := by
  unfold ratchetWire Client.Worker.parseDr Slice.len
  by_cases hshort : data.bytes.length < 40
  · rw [if_pos hshort, dif_pos hshort]
  · rw [if_neg hshort, dif_neg hshort]
    simp only [rangeTo]
    rw [bind_to32 rfl (by omega), bind_u32Be rfl (by omega), bind_u32Be rfl (by omega),
      bind_rangeFrom (by omega), Slice.bytes_part]
    rfl

theorem groupWire_eq (data : Slice t) : groupWire F data =
    (SenderKey.parseMessage F data.bytes).elim (.error (.js "group message too short")) .ok := by
  unfold groupWire SenderKey.parseMessage Slice.len
  by_cases hshort : data.bytes.length < 72
  · rw [if_pos hshort, dif_pos hshort]
    rfl
  · rw [if_neg hshort, dif_neg hshort]
    simp only [rangeTo]
    rw [bind_u32Be rfl (by omega), bind_u32Be rfl (by omega), bind_array (n := 64) rfl (by omega),
      bind_rangeFrom (by omega), Slice.bytes_part]
    rfl

theorem fromDistributionMessage_eq (distMsg : Slice t) : fromDistributionMessage F distMsg =
    (SenderKey.receiverFromDist distMsg.bytes).elim (.error (.js "distribution message too short")) .ok := by
  unfold fromDistributionMessage SenderKey.receiverFromDist Slice.len
  by_cases hshort : distMsg.bytes.length < 72
  · rw [if_pos hshort, dif_pos hshort]
    rfl
  · rw [if_neg hshort, dif_neg hshort]
    simp only [rangeTo]
    rw [bind_u32Be rfl (by omega), bind_u32Be rfl (by omega), bind_array (n := 32) rfl (by omega),
      bind_array (n := 32) rfl (by omega)]
    have hblock : ∀ v, F.block.symm v = P.block v := fun v => F.block.symm_apply_eq.mpr (F.block_apply v).symm
    rw [hblock]
    rfl

/-! ## How much they read -/

theorem length_optionBytes (k : Option (Vector UInt8 32)) :
    (DoubleRatchet.optionBytes k).length = if k.isSome then 33 else 1 := by
  cases k with
  | none => rfl
  | some k => simp [DoubleRatchet.optionBytes]

theorem uses_readOption : Uses 0 DoubleRatchet.readOption fun k => (DoubleRatchet.optionBytes k).length := by
  refine uses_u8.bind fun present => .ite ((uses_fixed 32).bind fun k => .pure ?_) (.pure ?_)
  · rw [length_optionBytes]
    exact Nat.le_refl _
  · exact Nat.le_refl _

theorem uses_readSkipped :
    Uses 0 (DoubleRatchet.readSkipped F) fun entry => (DoubleRatchet.skippedBytes F entry).length := by
  refine uses_u16.bind fun keyLen => (uses_bytes _).bind fun dhKey => uses_u32.bind fun iter =>
    (uses_fixed 32).bind fun mk => .pure ?_
  simp [DoubleRatchet.skippedBytes, be16]
  omega

theorem uses_readRatchetState : Uses 0 (RatchetState.read F) fun s => (s.toBytes F).length := by
  refine uses_u8.bind fun version => .ite .throw ?_
  refine (uses_fixed 32).bind fun dhs => uses_readOption.bind fun dhr => (uses_fixed 32).bind fun rk =>
    uses_readOption.bind fun cks => uses_readOption.bind fun ckr => uses_u32.bind fun ns =>
    uses_u32.bind fun nr => uses_u32.bind fun pn => uses_u32.bind fun count => ?_
  have hfold : Uses 0 (fold (DoubleRatchet.readSkipped F)
      (fun (m : Skipped P) entry => m.insert entry.1 entry.2) count.toNat ∅)
      fun m => (m.toList.flatMap (DoubleRatchet.skippedBytes F)).length :=
    (uses_readSkipped F).fold (fun m entry => TreeMaps.length_flatMap_insert_le _ m entry.1 entry.2) _
      (by rw [Std.ExtTreeMap.toList_eq_nil_iff.mpr rfl]; exact Nat.le_refl 0)
  refine hfold.bind fun mkskipped => .pure ?_
  simp only [RatchetState.toBytes, List.length_append, length_optionBytes, Option.isSome_map,
    Vector.length_toList, be32_length, List.length_singleton]
  omega

theorem uses_readSenderState : Uses 0 (SenderState.read F) fun s => (s.toBytes F).length := by
  refine uses_u8.bind fun version => .ite .throw (uses_u32.bind fun keyId => uses_u32.bind fun iteration =>
    (uses_fixed 32).bind fun chainKey => (uses_fixed 32).bind fun signingSeed => .pure ?_)
  simp [SenderState.toBytes]

theorem uses_readSkippedKey :
    Uses 0 (SenderKey.readSkipped F) fun entry => (SenderKey.skippedBytes F entry).length := by
  refine uses_u32.bind fun iter => (uses_fixed 32).bind fun mk => .pure ?_
  simp [SenderKey.skippedBytes]

theorem uses_readReceiverState : Uses 0 (ReceiverState.read F) fun s => (s.toBytes F).length := by
  refine uses_u8.bind fun version => .ite .throw (uses_u32.bind fun keyId => uses_u32.bind fun iteration =>
    (uses_fixed 32).bind fun chainKey => (uses_fixed 32).bind fun signingPub => uses_u32.bind fun count => ?_)
  have hfold : Uses 0 (fold (SenderKey.readSkipped F)
      (fun (m : Std.ExtTreeMap UInt32 P.Block) entry => m.insert entry.1 entry.2) count.toNat ∅)
      fun m => (m.toList.flatMap (SenderKey.skippedBytes F)).length :=
    (uses_readSkippedKey F).fold (fun m entry => TreeMaps.length_flatMap_insert_le _ m entry.1 entry.2) _
      (by rw [Std.ExtTreeMap.toList_eq_nil_iff.mpr rfl]; exact Nat.le_refl 0)
  refine hfold.bind fun skipped => .pure ?_
  simp only [ReceiverState.toBytes, List.length_append, Vector.length_toList, be32_length, List.length_singleton]
  omega

/-! ## No panic, no short input -/

/-- A decoder that does not panic, and accepts no input shorter than the fields of what it returns. -/
structure Total {ε α : Type} (panic : String → ε) (decode : Slice t → Except ε α) (size : α → Nat) : Prop where
  no_panic : ∀ data message, decode data ≠ .error (panic message)
  fits : ∀ data a, decode data = .ok a → size a ≤ data.len

theorem Total.of_follows {α : Type} {m : Parser t α} {r : Reader Fault α} {size : α → Nat} (h : Follows m r)
    (huses : Uses 0 r size) : Total .panic (run m) size where
  no_panic data message := by
    obtain ⟨-, hm⟩ | ⟨a, p, -, hm, -⟩ := h (new data) (Nat.zero_le _)
    · rw [run, hm]
      exact fun heq => by cases heq
    · rw [run, hm]
      exact fun heq => by cases heq
  fits data a hok := by
    rw [h.run] at hok
    obtain ⟨⟨a', rest⟩, hr, rfl⟩ := map_eq_ok.mp hok
    have hle := huses _ _ _ hr
    rw [Nat.zero_add] at hle
    exact Nat.le_of_add_right_le hle

theorem total_deserializeBlob :
    Total .panic (deserializeBlob (t := t)) fun blob => (PinKey.serializeBlob blob).length where
  no_panic data message := by
    rw [deserializeBlob_eq, PinKey.deserializeBlob]
    split
    · exact fun heq => by cases heq
    · split <;> exact fun heq => by cases heq
  fits data blob hok := by
    rw [deserializeBlob_eq] at hok
    rw [(PinKey.serializeBlob_of_deserializeBlob hok).1]
    exact Nat.le_refl _

theorem total_splitChunk : Total .panic (splitChunk F (t := t)) fun chunk => 12 + (F.cipher chunk.ct).length where
  no_panic data message := by
    rw [splitChunk_eq]
    split <;> exact fun heq => by cases heq
  fits data chunk hok := by
    rw [splitChunk_eq] at hok
    split at hok
    · cases hok
    · cases hok
      rw [F.cipher.apply_symm_apply, List.length_drop, Slice.len]
      omega

theorem total_parseBundle :
    Total trap (parseBundle F (t := t)) fun bundle => if bundle.opk.isSome then 193 else 161 where
  no_panic data message := by
    rw [parseBundle_eq, Client.parseBundle]
    split
    · exact fun heq => by cases heq
    · dsimp only
      split
      · split <;> exact fun heq => by cases heq
      · exact fun heq => by cases heq
  fits data bundle hok := by
    rw [parseBundle_eq, Client.parseBundle] at hok
    split at hok
    · cases hok
    · rename_i hlong
      dsimp only at hok
      split at hok
      · split at hok
        · cases hok
        · rename_i hopk
          cases hok
          exact Nat.le_of_not_lt hopk
      · cases hok
        exact Nat.le_of_not_lt hlong

theorem exact32_ne_trap {b : Bytes} {message : String} : Client.exact32 b ≠ .error (trap message) := by
  unfold Client.exact32
  split <;> exact fun heq => by cases heq

theorem x3dhReceive_ne_panic {ourIkDh ourSpk : P.Secret} {ourOpk : Option P.Secret} {init : X3dhInitMessage}
    {message : String} : X3dh.x3dhReceive ourIkDh ourSpk ourOpk init ≠ .error (.panic message) := by
  unfold X3dh.x3dhReceive
  split
  · nofun
  · cases ourOpk <;> (simp only [Client.deriveSk_eq]; nofun)

theorem total_x3dhReceive (ourIkDhSecret ourSpkSecret ourOpkSecret : Slice t) :
    Total trap (x3dhReceive F ourIkDhSecret ourSpkSecret ourOpkSecret) fun _ => 65 where
  no_panic data message := by
    rw [x3dhReceive_eq, Client.x3dhReceiveBytes]
    refine bind_ne_error ?_ fun init => bind_ne_error exact32_ne_trap fun ourIkDh =>
      bind_ne_error exact32_ne_trap fun ourSpk => bind_ne_error ?_ fun ourOpk => bind_ne_error ?_ fun sk heq =>
        by cases heq
    · unfold Client.parseInit
      split <;> exact fun heq => by cases heq
    · unfold Client.readOpk
      split
      · exact fun heq => by cases heq
      · cases hx : Client.exact32 ourOpkSecret.bytes with
        | ok v => exact fun heq => by cases heq
        | error e => exact fun heq => exact32_ne_trap (hx.trans (congrArg Except.error (Except.error.inj heq)))
    · unfold Client.liftWasm
      cases hx : X3dh.x3dhReceive (F.secret.symm ourIkDh) (F.secret.symm ourSpk) (ourOpk.map F.secret.symm) init with
      | ok v => exact fun heq => by cases heq
      | error fault =>
        intro heq
        rw [Thrown.wasm.inj (Except.error.inj heq)] at hx
        exact x3dhReceive_ne_panic hx
  fits data sk hok := by
    unfold x3dhReceive at hok
    split at hok
    · cases hok
    · rename_i hlong
      exact Nat.le_of_not_lt hlong

theorem total_ratchetWire :
    Total trap (ratchetWire F (t := t)) fun wire => 40 + (F.cipher wire.2).length where
  no_panic data message := by
    rw [ratchetWire_eq, Client.Worker.parseDr]
    split <;> exact fun heq => by cases heq
  fits data wire hok := by
    rw [ratchetWire_eq, Client.Worker.parseDr] at hok
    split at hok
    · cases hok
    · cases hok
      rw [F.cipher.apply_symm_apply, List.length_drop, Slice.len]
      omega

theorem total_groupWire : Total trap (groupWire F (t := t)) fun msg => 72 + (F.cipher msg.ciphertext).length where
  no_panic data message := by
    rw [groupWire_eq, SenderKey.parseMessage]
    split <;> exact fun heq => by cases heq
  fits data msg hok := by
    rw [groupWire_eq, SenderKey.parseMessage] at hok
    split at hok
    · cases hok
    · cases hok
      rw [F.cipher.apply_symm_apply, List.length_drop, Slice.len]
      omega

theorem total_fromDistributionMessage : Total trap (fromDistributionMessage F (t := t)) fun _ => 72 where
  no_panic data message := by
    rw [fromDistributionMessage_eq, SenderKey.receiverFromDist]
    split <;> exact fun heq => by cases heq
  fits data s hok := by
    rw [fromDistributionMessage_eq, SenderKey.receiverFromDist] at hok
    split at hok
    · cases hok
    · rename_i hlong
      exact Nat.le_of_not_lt hlong

/-- **The decoders are total**: whatever the bytes, each returns a value or an error, and a value only where the
input holds its fields. The loops begin no round more than there are entries in what is left, and end with an
error in the round that finds too little. -/
theorem decoders_total (t : Target) :
    Total .panic (ratchetStateFromBytes F (t := t)) (fun s => (s.toBytes F).length) ∧
    Total .panic (senderStateFromBytes F (t := t)) (fun s => (s.toBytes F).length) ∧
    Total .panic (receiverStateFromBytes F (t := t)) (fun s => (s.toBytes F).length) ∧
    Total .panic (deserializeBlob (t := t)) (fun blob => (PinKey.serializeBlob blob).length) ∧
    Total .panic (splitChunk F (t := t)) (fun chunk => 12 + (F.cipher chunk.ct).length) ∧
    Total trap (parseBundle F (t := t)) (fun bundle => if bundle.opk.isSome then 193 else 161) ∧
    (∀ ourIkDhSecret ourSpkSecret ourOpkSecret : Slice t,
      Total trap (x3dhReceive F ourIkDhSecret ourSpkSecret ourOpkSecret) fun _ => 65) ∧
    Total trap (ratchetWire F (t := t)) (fun wire => 40 + (F.cipher wire.2).length) ∧
    Total trap (groupWire F (t := t)) (fun msg => 72 + (F.cipher msg.ciphertext).length) ∧
    Total trap (fromDistributionMessage F (t := t)) (fun _ => 72) ∧
    Exhaustible (readSkipped F (t := t)) 38 ∧
    Exhaustible (readSkippedKey F (t := t)) 36 := by
  refine ⟨.of_follows follows_readRatchetState (uses_readRatchetState F),
    .of_follows follows_readSenderState (uses_readSenderState F),
    .of_follows follows_readReceiverState (uses_readReceiverState F), total_deserializeBlob, total_splitChunk F,
    total_parseBundle F, total_x3dhReceive F, total_ratchetWire F, total_groupWire F,
    total_fromDistributionMessage F, ?_, ?_⟩
  · refine Follows.exhaustible follows_readSkipped (uses_readSkipped F) (fun entry => ?_) (by decide)
    simp [DoubleRatchet.skippedBytes, be16]
  · refine Follows.exhaustible follows_readSkippedKey (uses_readSkippedKey F) (fun entry => ?_) (by decide)
    simp [SenderKey.skippedBytes]

end Vesper.Decoders
