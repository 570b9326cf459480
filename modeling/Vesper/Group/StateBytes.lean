import Vesper.Crypto.ByteForms
import Vesper.Group.Caches

/-!
# Sender keys as bytes

The formats of a group: both states as they are stored, the distribution message and the message as they
are sent. Each is read back as it was written, so that a group whose sessions are stored and whose messages
travel does what the same group does in memory.
-/

namespace Vesper.SenderKey
open ByteReader TreeMaps
open DoubleRatchet (toNat_ofNat_of_lt)
variable {P : Primitives} (F : ByteForms P)

/-! ## The states -/

/-- version(1) | key_id(4 BE) | iteration(4 BE) | chain_key(32) | signing_seed(32) -/
def SenderState.toBytes (s : SenderState P) : Bytes :=
  [0x01] ++ (be32 s.keyId ++ (be32 s.iteration ++ ((F.block s.chainKey).toList ++
    (F.signingKey s.signingKey).toList)))

def SenderState.read : Reader Fault (SenderState P) := do
  let version ← u8 invalid
  if version ≠ 0x01 then throw invalid
  else
    let keyId ← u32 invalid
    let iteration ← u32 invalid
    let chainKey ← fixed invalid 32
    let signingSeed ← fixed invalid 32
    return { keyId, iteration, chainKey := F.block.symm chainKey, signingKey := F.signingKey.symm signingSeed }

def SenderState.fromBytes (data : Bytes) : Except Fault (SenderState P) :=
  (SenderState.read F data).map Prod.fst

/-- `iter(4 BE) + mk(32)` -/
def skippedBytes (entry : UInt32 × P.Block) : Bytes := be32 entry.1 ++ (F.block entry.2).toList

/-- version(1) | key_id(4 BE) | iteration(4 BE) | chain_key(32) | signing_pub(32) | skipped_count(4 BE) |
the entries -/
def ReceiverState.toBytes (s : ReceiverState P) : Bytes :=
  [0x01] ++ (be32 s.keyId ++ (be32 s.iteration ++ ((F.block s.chainKey).toList ++
    (s.signingPub.bytes.toList ++ (be32 (.ofNat s.skipped.size) ++
      s.skipped.toList.flatMap (skippedBytes F))))))

def readSkipped : Reader Fault (UInt32 × P.Block) := do
  let iter ← u32 invalid
  let mk ← fixed invalid 32
  return (iter, F.block.symm mk)

def ReceiverState.read : Reader Fault (ReceiverState P) := do
  let version ← u8 invalid
  if version ≠ 0x01 then throw invalid
  else
    let keyId ← u32 invalid
    let iteration ← u32 invalid
    let chainKey ← fixed invalid 32
    let signingPub ← fixed invalid 32
    let count ← u32 invalid
    let skipped ← fold (readSkipped F) (fun m entry => m.insert entry.1 entry.2) count.toNat ∅
    return { keyId, iteration, chainKey := F.block.symm chainKey, signingPub := ⟨signingPub⟩, skipped }

def ReceiverState.fromBytes (data : Bytes) : Except Fault (ReceiverState P) :=
  (ReceiverState.read F data).map Prod.fst

theorem SenderState.reads (s : SenderState P) : Reads (SenderState.read F) (s.toBytes F) s := by
  refine (reads_u8 _).bind ?_
  rw [if_neg (not_not_intro rfl)]
  refine (reads_be32 _).bind ((reads_be32 _).bind ((reads_fixed _).bind ((reads_fixed _).bind_pure ?_)))
  rw [F.block.symm_apply_apply, F.signingKey.symm_apply_apply]
  exact .pure s

/-- Every sender comes back. -/
theorem SenderState.fromBytes_toBytes (s : SenderState P) :
    SenderState.fromBytes F (s.toBytes F) = .ok s := by
  rw [SenderState.fromBytes, (s.reads F).whole]
  rfl

theorem reads_skipped (entry : UInt32 × P.Block) :
    Reads (readSkipped F) (skippedBytes F entry) entry := by
  refine (reads_be32 _).bind ((reads_fixed _).bind_pure ?_)
  rw [F.block.symm_apply_apply]
  exact .pure entry

theorem ReceiverState.reads {s : ReceiverState P} (hcount : s.skipped.size < 2 ^ 32) :
    Reads (ReceiverState.read F) (s.toBytes F) s := by
  have hlength : (UInt32.ofNat s.skipped.size).toNat = s.skipped.toList.length := by
    rw [toNat_ofNat_of_lt hcount, Std.ExtTreeMap.length_toList]
  refine (reads_u8 _).bind ?_
  rw [if_neg (not_not_intro rfl)]
  refine (reads_be32 _).bind ((reads_be32 _).bind ((reads_fixed _).bind ((reads_fixed _).bind
    ((reads_be32 _).bind ?_))))
  rw [hlength]
  refine (Reads.fold (fun entry _ => reads_skipped F entry) ∅).bind_pure ?_
  have hmap : s.skipped.toList.foldl (fun m entry => m.insert entry.1 entry.2) ∅ = s.skipped :=
    insertAll_toList s.skipped
  rw [hmap, F.block.symm_apply_apply]
  exact .pure s

theorem ReceiverState.fromBytes_toBytes {s : ReceiverState P} (hcount : s.skipped.size < 2 ^ 32) :
    ReceiverState.fromBytes F (s.toBytes F) = .ok s := by
  rw [ReceiverState.fromBytes, (ReceiverState.reads F hcount).whole]
  rfl

/-- A receiver that was read has no more keys than were counted. -/
theorem ReceiverState.size_of_fromBytes {data : Bytes} {s : ReceiverState P}
    (h : ReceiverState.fromBytes F data = .ok s) : s.skipped.size < 2 ^ 32 := by
  have hreturns : Returns (ReceiverState.read F) fun s => s.skipped.size < 2 ^ 32 := by
    refine (returns_true _).bind fun version _ => ?_
    split
    · exact fun _ _ _ heq => nomatch heq
    refine (returns_true _).bind fun keyId _ => (returns_true _).bind fun iteration _ =>
      (returns_true _).bind fun chainKey _ => (returns_true _).bind fun signingPub _ =>
        (returns_true _).bind fun count _ => ?_
    have hfold := (returns_true (readSkipped F)).fold
      (f := fun (m : Std.ExtTreeMap UInt32 P.Block) entry => m.insert entry.1 entry.2)
      (I := fun n m => m.size ≤ n)
      (fun n m entry hm _ => Nat.le_trans Std.ExtTreeMap.size_insert_le (Nat.succ_le_succ hm))
      count.toNat (k := 0) (s := ∅) (Nat.le_refl _)
    refine hfold.bind fun m hm => .pure ?_
    have := count.toNat_lt
    dsimp only
    omega
  obtain ⟨⟨s', rest⟩, hread, rfl⟩ := map_eq_ok.mp h
  exact hreturns data s' rest hread

/-- The iteration is read back, whatever the cache. -/
theorem ReceiverState.iteration_of_fromBytes {s r : ReceiverState P}
    (h : ReceiverState.fromBytes F (s.toBytes F) = .ok r) : r.iteration = s.iteration := by
  obtain ⟨⟨r', rest⟩, hread, rfl⟩ := map_eq_ok.mp h
  rw [ReceiverState.toBytes, ReceiverState.read, (reads_u8 _).run, if_neg (not_not_intro rfl), (reads_be32 _).run,
    (reads_be32 _).run] at hread
  have hreturns := (returns_true (fixed invalid 32)).bind fun chainKey _ =>
    (returns_true (fixed invalid 32)).bind fun signingPub _ => (returns_true (u32 invalid)).bind fun count _ =>
      (returns_true (fold (readSkipped F) (fun m entry => m.insert entry.1 entry.2) count.toNat ∅)).bind
        fun skipped _ => Returns.pure (Q := fun r : ReceiverState P => r.iteration = s.iteration)
          (a := ⟨s.keyId, s.iteration, F.block.symm chainKey, ⟨signingPub⟩, skipped⟩) rfl
  exact hreturns _ _ _ hread

/-- A message key is drawn once: a receiver that gives one is not stored as it was. -/
theorem toBytes_messageKeyFor_ne {data : Bytes} {s : ReceiverState P} {target : UInt32} {mk : P.Block}
    (hread : ReceiverState.fromBytes F data = .ok s) (h : (s.messageKeyFor target).2 = .ok mk) :
    (s.messageKeyFor target).1.toBytes F ≠ data := by
  rintro rfl
  cases hmiss : s.skipped[target]? with
  | some copy =>
    have hmem : target ∈ s.skipped := Std.ExtTreeMap.mem_iff_isSome_getElem?.mpr (by rw [hmiss]; rfl)
    have hsize := ReceiverState.size_of_fromBytes F hread
    rw [messageKeyFor_cached hmiss, ReceiverState.fromBytes_toBytes F
      (Nat.lt_of_le_of_lt Std.ExtTreeMap.size_erase_le hsize)] at hread
    have herase : s.skipped.erase target = s.skipped := congrArg ReceiverState.skipped (Except.ok.inj hread)
    rw [← herase] at hmem
    simp at hmem
  | none =>
    by_cases hbehind : target.toNat < s.iteration.toNat
    · rw [messageKeyFor_behind hmiss hbehind] at h
      cases h
    by_cases hlimit : s.iteration.toNat + MAX_SKIP.toNat < target.toNat
    · rw [messageKeyFor_limit hmiss hlimit] at h
      cases h
    have hiteration := ReceiverState.iteration_of_fromBytes F hread
    rw [messageKeyFor_ahead hmiss (Nat.not_lt.mp hbehind) (Nat.not_lt.mp hlimit)] at hiteration
    have hsame := congrArg UInt32.toNat hiteration
    rw [UInt32.toNat_add, show (1 : UInt32).toNat = 1 from rfl] at hsame
    have htarget := target.toNat_lt
    have hskip : MAX_SKIP.toNat = 2000 := rfl
    omega

/-! ## How many keys a receiver can hold -/

/-- A key is skipped for a later one: there is none for the last iteration. -/
def SkipsBelowLast (s : ReceiverState P) : Prop := ∀ t ∈ s.skipped, t.toNat < 2 ^ 32 - 1

theorem SkipsBelowLast.size_lt {s : ReceiverState P} (h : SkipsBelowLast s) : s.skipped.size < 2 ^ 32 := by
  have hle : s.skipped.size ≤ ((List.range (2 ^ 32 - 1)).map UInt32.ofNat).length := by
    refine size_le_of_keys fun t ht => ?_
    exact List.mem_map.mpr ⟨t.toNat, List.mem_range.mpr (h t ht), UInt32.ofNat_toNat⟩
  rw [List.length_map, List.length_range] at hle
  omega

theorem SkipsBelowLast.messageKeyFor {s : ReceiverState P} (h : SkipsBelowLast s) (target : UInt32) :
    SkipsBelowLast (s.messageKeyFor target).1 := by
  cases hmiss : s.skipped[target]? with
  | some mk =>
    rw [messageKeyFor_cached hmiss]
    exact fun t ht => h t (Std.ExtTreeMap.mem_of_mem_erase ht)
  | none =>
    by_cases hbehind : target.toNat < s.iteration.toNat
    · rw [messageKeyFor_behind hmiss hbehind]
      exact h
    by_cases hlimit : s.iteration.toNat + MAX_SKIP.toNat < target.toNat
    · rw [messageKeyFor_limit hmiss hlimit]
      exact h
    have htarget := target.toNat_lt
    rw [messageKeyFor_ahead hmiss (by omega) (by omega), fill_eq_insertAll]
    intro t ht
    rcases mem_insertAll ht with hmem | ⟨mk, hmem⟩
    · exact h t hmem
    · obtain ⟨i, hi, heq⟩ := List.mem_map.mp hmem
      obtain rfl : s.iteration + .ofNat i = t := congrArg Prod.fst heq
      have hi := List.mem_range.mp hi
      rw [UInt32.toNat_add, toNat_ofNat_of_lt (by omega), Nat.mod_eq_of_lt (by omega)]
      omega

theorem SkipsBelowLast.decrypt {s : ReceiverState P} (h : SkipsBelowLast s) (msg : SenderKeyMessage P) :
    SkipsBelowLast (decrypt s msg).1 := by
  cases hverify : s.signingPub.verify P msg.payload msg.signature with
  | error f =>
    rw [decrypt_unverified hverify]
    exact h
  | ok =>
    rw [decrypt_verified hverify]
    exact h.messageKeyFor msg.iteration

theorem skipsBelowLast_new (dist : SenderKeyDistributionMessage P) :
    SkipsBelowLast (processDistributionMessage dist) :=
  fun _ ht => absurd ht Std.ExtTreeMap.not_mem_empty

/-! ## What is sent -/

/-- key_id(4 BE) || iteration(4 BE) || chain_key(32) || signing_pub(32) -/
def SenderKeyDistributionMessage.toBytes (d : SenderKeyDistributionMessage P) : Bytes :=
  be32 d.keyId ++ (be32 d.iteration ++ ((F.block d.chainKey).toList ++ d.signingPub.bytes.toList))

/-- What the binding's `createDistributionMessage` returns. -/
def SenderState.distributionBytes (s : SenderState P) : Bytes := (createDistributionMessage s).toBytes F

@[simp] theorem length_distributionBytes (s : SenderState P) : (s.distributionBytes F).length = 72 := by
  simp [SenderState.distributionBytes, SenderKeyDistributionMessage.toBytes]

/-- `fromDistributionMessage` makes the receiver that the sender's own snapshot would. -/
theorem receiverFromDist_distributionBytes (s : SenderState P) :
    receiverFromDist (s.distributionBytes F) =
      some (processDistributionMessage (createDistributionMessage s)) := by
  have hblock : P.block (F.block s.chainKey) = s.chainKey :=
    F.block.injective (F.block_apply _)
  rw [SenderState.distributionBytes, SenderKeyDistributionMessage.toBytes, receiverFromDist_append]
  dsimp only [createDistributionMessage]
  rw [hblock]
  rfl

/-- What the binding's `encrypt` returns: key_id(4 BE) || iteration(4 BE) || sig(64) || ciphertext -/
def messageBytes (msg : SenderKeyMessage P) : Bytes :=
  be32 msg.keyId ++ (be32 msg.iteration ++ ((F.signature msg.signature).toList ++ F.cipher msg.ciphertext))

/-- What the binding's `decrypt` reads, or nothing when it is too short. -/
def parseMessage (data : Bytes) : Option (SenderKeyMessage P) :=
  if h : data.length < 72 then none
  else some {
    keyId := u32Be (data.take 4)
    iteration := u32Be ((data.drop 4).take 4)
    signature := F.signature.symm (slice 64 data 8 (by omega))
    ciphertext := F.cipher.symm (data.drop 72) }

theorem parseMessage_messageBytes (msg : SenderKeyMessage P) :
    parseMessage F (messageBytes F msg) = some msg := by
  have hlength : 72 ≤ (messageBytes F msg).length := by
    simp [messageBytes]
    omega
  have hkeyId : u32Be ((messageBytes F msg).take 4) = msg.keyId := by
    rw [messageBytes, List.take_left' (be32_length _), u32Be_be32]
  have hiteration : u32Be (((messageBytes F msg).drop 4).take 4) = msg.iteration := by
    rw [messageBytes, List.drop_left' (be32_length _), List.take_left' (be32_length _), u32Be_be32]
  have hsignature : slice 64 (messageBytes F msg) 8 (by omega) = F.signature msg.signature :=
    slice_append (List.append_assoc (be32 msg.keyId) (be32 msg.iteration) _).symm rfl _
  have hcipher : (messageBytes F msg).drop 72 = F.cipher msg.ciphertext := by
    have happend : messageBytes F msg = (be32 msg.keyId ++ (be32 msg.iteration ++
        (F.signature msg.signature).toList)) ++ F.cipher msg.ciphertext := by
      simp [messageBytes]
    rw [happend, List.drop_left' (by simp)]
  rw [parseMessage, dif_neg (by omega), hkeyId, hiteration, hsignature, hcipher,
    F.signature.symm_apply_apply, F.cipher.symm_apply_apply]

theorem messageBytes_inj {msg msg' : SenderKeyMessage P} : messageBytes F msg = messageBytes F msg' ↔ msg = msg' := by
  refine ⟨fun h => Option.some.inj ?_, fun h => h ▸ rfl⟩
  rw [← parseMessage_messageBytes F msg, ← parseMessage_messageBytes F msg', h]

/-- Messages and byte strings that are long enough are the same. -/
theorem parseMessage_eq_some_iff {data : Bytes} {msg : SenderKeyMessage P} :
    parseMessage F data = some msg ↔ data = messageBytes F msg := by
  refine ⟨fun h => ?_, fun h => h ▸ parseMessage_messageBytes F msg⟩
  rw [parseMessage] at h
  split at h
  · cases h
  rename_i hlength
  obtain rfl := Option.some.inj h
  have hkeyId := be32_u32Be (b := data.take 4) (by rw [List.length_take]; omega)
  have hiteration := be32_u32Be (b := (data.drop 4).take 4) (by
    rw [List.length_take, List.length_drop]
    omega)
  have hsignature : (slice 64 data 8 (by omega)).toList = (data.drop 8).take 64 := rfl
  rw [messageBytes]
  dsimp only
  rw [F.signature.apply_symm_apply, F.cipher.apply_symm_apply, hkeyId, hiteration, hsignature]
  rw [show data.drop 72 = (data.drop 8).drop 64 from by rw [List.drop_drop], List.take_append_drop,
    show data.drop 8 = (data.drop 4).drop 4 from by rw [List.drop_drop], List.take_append_drop,
    List.take_append_drop]

/-! ## Groups in memory and through bytes -/

/-- What is done with the senders `ι` and the receivers `κ`; `μ` is what a message is. -/
inductive GroupCall (ι κ μ : Type) where
  | encrypt (sender : ι) (plaintext : Bytes)
  | distribute (sender : ι) (receiver : κ)
  | decrypt (receiver : κ) (msg : μ)

def GroupCall.map {ι κ μ ν : Type} (f : μ → ν) : GroupCall ι κ μ → GroupCall ι κ ν
  | .encrypt i plaintext => .encrypt i plaintext
  | .distribute i r => .distribute i r
  | .decrypt r msg => .decrypt r (f msg)

/-- What it returns; `decrypted none` where there is no session, or no message to read. -/
inductive GroupReturned (μ δ : Type) where
  | encrypted (result : Except Fault μ)
  | distributed (dist : δ)
  | decrypted (result : Option (Except Fault Bytes))

def GroupReturned.map {μ ν δ η : Type} (f : μ → ν) (g : δ → η) : GroupReturned μ δ → GroupReturned ν η
  | .encrypted result => .encrypted (result.map f)
  | .distributed dist => .distributed (g dist)
  | .decrypted result => .decrypted result

/-- The open sessions. -/
structure GroupSessions (P : Primitives) (ι κ : Type) where
  senders : ι → SenderState P
  receivers : κ → Option (ReceiverState P)

/-- A session that is stored and loaded. -/
inductive Reload (ι κ : Type) where
  | sender (i : ι)
  | receiver (r : κ)

section
variable {ι κ : Type} [DecidableEq ι] [DecidableEq κ]

def GroupCall.run (g : GroupSessions P ι κ) : GroupCall ι κ (SenderKeyMessage P) →
    GroupSessions P ι κ × GroupReturned (SenderKeyMessage P) (SenderKeyDistributionMessage P)
  | .encrypt i plaintext =>
    let (sender, result) := SenderKey.encrypt (g.senders i) plaintext
    ({ g with senders := Function.update g.senders i sender }, .encrypted result)
  | .distribute i r =>
    let dist := createDistributionMessage (g.senders i)
    ({ g with receivers := Function.update g.receivers r (some (processDistributionMessage dist)) },
      .distributed dist)
  | .decrypt r msg =>
    match g.receivers r with
    | none => (g, .decrypted none)
    | some receiver =>
      let (receiver, result) := SenderKey.decrypt receiver msg
      ({ g with receivers := Function.update g.receivers r (some receiver) }, .decrypted (some result))

/-- The same through the bindings. -/
def GroupCall.runBytes (g : GroupSessions P ι κ) : GroupCall ι κ Bytes →
    GroupSessions P ι κ × GroupReturned Bytes Bytes
  | .encrypt i plaintext =>
    let (sender, result) := SenderKey.encrypt (g.senders i) plaintext
    ({ g with senders := Function.update g.senders i sender }, .encrypted (result.map (messageBytes F)))
  | .distribute i r =>
    let distMsg := (g.senders i).distributionBytes F
    match receiverFromDist distMsg with
    | none => (g, .distributed distMsg)
    | some receiver =>
      ({ g with receivers := Function.update g.receivers r (some receiver) }, .distributed distMsg)
  | .decrypt r data =>
    match g.receivers r, parseMessage F data with
    | some receiver, some msg =>
      let (receiver, result) := SenderKey.decrypt receiver msg
      ({ g with receivers := Function.update g.receivers r (some receiver) }, .decrypted (some result))
    | _, _ => (g, .decrypted none)

def Reload.run (g : GroupSessions P ι κ) : Reload ι κ → Except Fault (GroupSessions P ι κ)
  | .sender i => do
    let sender ← SenderState.fromBytes F ((g.senders i).toBytes F)
    return { g with senders := Function.update g.senders i sender }
  | .receiver r =>
    match g.receivers r with
    | none => return g
    | some state => do
      let state ← ReceiverState.fromBytes F (state.toBytes F)
      return { g with receivers := Function.update g.receivers r (some state) }

/-- The sessions after some calls, and what these return. -/
def groupRun : GroupSessions P ι κ → List (GroupCall ι κ (SenderKeyMessage P)) →
    GroupSessions P ι κ × List (GroupReturned (SenderKeyMessage P) (SenderKeyDistributionMessage P))
  | g, [] => (g, [])
  | g, call :: calls =>
    let (g, returned) := call.run g
    let (g, rest) := groupRun g calls
    (g, returned :: rest)

def groupRunBytes : GroupSessions P ι κ → List (Reload ι κ ⊕ GroupCall ι κ Bytes) →
    Except Fault (GroupSessions P ι κ × List (GroupReturned Bytes Bytes))
  | g, [] => .ok (g, [])
  | g, .inl reload :: steps => do groupRunBytes (← reload.run F g) steps
  | g, .inr call :: steps => do
    let (g, returned) := call.runBytes F g
    let (g, rest) ← groupRunBytes g steps
    return (g, returned :: rest)

/-- What makes every session storable. -/
def GroupSessions.Storable (g : GroupSessions P ι κ) : Prop :=
  ∀ r receiver, g.receivers r = some receiver → SkipsBelowLast receiver

variable {g : GroupSessions P ι κ}

omit [DecidableEq ι] in
theorem GroupSessions.Storable.update (h : g.Storable) {receiver : ReceiverState P}
    (hreceiver : SkipsBelowLast receiver) (r : κ) :
    { g with receivers := Function.update g.receivers r (some receiver) }.Storable := by
  intro r' receiver' heq
  by_cases hr : r' = r
  · subst hr
    obtain rfl : receiver = receiver' := by simpa using heq
    exact hreceiver
  · exact h r' receiver' (by simpa [hr] using heq)

theorem GroupSessions.Storable.run (h : g.Storable) (call : GroupCall ι κ (SenderKeyMessage P)) :
    (call.run g).1.Storable := by
  cases call with
  | encrypt i plaintext => exact h
  | distribute i r => exact h.update (skipsBelowLast_new _) r
  | decrypt r msg =>
    rw [GroupCall.run]
    cases hr : g.receivers r with
    | none => exact h
    | some receiver => exact h.update ((h r receiver hr).decrypt msg) r

theorem runBytes_map (g : GroupSessions P ι κ) (call : GroupCall ι κ (SenderKeyMessage P)) :
    (call.map (messageBytes F)).runBytes F g =
      ((call.run g).1, (call.run g).2.map (messageBytes F) (·.toBytes F)) := by
  cases call with
  | encrypt i plaintext => rfl
  | distribute i r =>
    rw [GroupCall.map, GroupCall.runBytes, receiverFromDist_distributionBytes]
    rfl
  | decrypt r msg =>
    rw [GroupCall.map, GroupCall.runBytes, GroupCall.run, parseMessage_messageBytes]
    cases g.receivers r <;> rfl

theorem GroupSessions.Storable.reload (h : g.Storable) (reload : Reload ι κ) :
    reload.run F g = .ok g := by
  cases reload with
  | sender i =>
    rw [Reload.run, SenderState.fromBytes_toBytes]
    change Except.ok { g with senders := Function.update g.senders i (g.senders i) } = _
    rw [Function.update_eq_self]
  | receiver r =>
    rw [Reload.run]
    cases hr : g.receivers r with
    | none => rfl
    | some receiver =>
      dsimp only
      rw [ReceiverState.fromBytes_toBytes F (h r receiver hr).size_lt]
      change Except.ok { g with receivers := Function.update g.receivers r (some receiver) } = _
      rw [← hr, Function.update_eq_self]

/-- Whatever is stored and loaded between the calls. -/
theorem groupRunBytes_eq (h : g.Storable) (steps : List (Reload ι κ ⊕ GroupCall ι κ (SenderKeyMessage P))) :
    groupRunBytes F g (steps.map (Sum.map id (GroupCall.map (messageBytes F)))) =
      .ok ((groupRun g (steps.filterMap Sum.getRight?)).1,
        (groupRun g (steps.filterMap Sum.getRight?)).2.map
          (GroupReturned.map (messageBytes F) (·.toBytes F))) := by
  induction steps generalizing g with
  | nil => rfl
  | cons step steps ih =>
    cases step with
    | inl reload =>
      rw [List.map_cons, List.filterMap_cons_none rfl, Sum.map_inl, groupRunBytes, id, h.reload F]
      exact ih h
    | inr call =>
      have hcalls : (Sum.inr call :: steps).filterMap Sum.getRight? =
          call :: steps.filterMap Sum.getRight? := rfl
      rw [List.map_cons, hcalls, Sum.map_inr, groupRunBytes, runBytes_map]
      change (groupRunBytes F (call.run g).1 _).bind _ = _
      rw [ih (h.run call)]
      rfl

end

/-- **Group codecs are lossless**: every sender and every receiver that messages can bring about comes back,
a distribution message makes the sender's own receiver, messages are the byte strings that are long enough,
and a group that works through bytes does what it does in memory. -/
theorem codecs_lossless :
    (∀ s : SenderState P, SenderState.fromBytes F (s.toBytes F) = .ok s) ∧
    (∀ dist s, (receipts (processDistributionMessage dist)).Reachable s →
      ReceiverState.fromBytes F (s.toBytes F) = .ok s) ∧
    (∀ s : SenderState P, (s.distributionBytes F).length = 72 ∧
      ∃ r, receiverFromDist (s.distributionBytes F) = some r ∧ r.keyId = s.keyId ∧
        r.iteration = s.iteration ∧ r.chainKey = s.chainKey ∧ r.signingPub = P.verifyingKey s.signingKey ∧
        r.skipped = ∅) ∧
    (∀ data msg, parseMessage F data = some msg ↔ data = messageBytes F msg) ∧
    ∀ (ι κ : Type) [DecidableEq ι] [DecidableEq κ] (senders : ι → SenderState P)
      (steps : List (Reload ι κ ⊕ GroupCall ι κ (SenderKeyMessage P))),
      groupRunBytes F ⟨senders, fun _ => none⟩ (steps.map (Sum.map id (GroupCall.map (messageBytes F)))) =
        .ok ((groupRun ⟨senders, fun _ => none⟩ (steps.filterMap Sum.getRight?)).1,
          (groupRun ⟨senders, fun _ => none⟩ (steps.filterMap Sum.getRight?)).2.map
            (GroupReturned.map (messageBytes F) (·.toBytes F))) := by
  refine ⟨SenderState.fromBytes_toBytes F, fun dist s hs => ?_, fun s => ?_,
    fun data msg => parseMessage_eq_some_iff F, fun ι κ _ _ senders steps => ?_⟩
  · refine ReceiverState.fromBytes_toBytes F (SkipsBelowLast.size_lt ?_)
    exact hs.invariant (skipsBelowLast_new dist) fun _ msg _ h _ => h.decrypt msg
  · exact ⟨length_distributionBytes F s, _, receiverFromDist_distributionBytes F s, rfl, rfl, rfl, rfl, rfl⟩
  · exact groupRunBytes_eq F (fun _ _ h => by cases h) steps

/-- A receiver that holds the keys of two messages. -/
theorem codecs_sample : ReceiverState.fromBytes plainForms
    ((decrypt plainReceiver (plainMessage 2)).1.toBytes plainForms) =
      .ok (decrypt plainReceiver (plainMessage 2)).1 := by
  have hreach : (receipts plainReceiver).Reachable (decrypt plainReceiver (plainMessage 2)).1 :=
    Machine.Reachable.init.step (M := receipts plainReceiver) (e := plainMessage 2) trivial
  exact (codecs_lossless plainForms).2.1 _ _ hreach

end Vesper.SenderKey
