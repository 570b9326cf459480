import Vesper.Client.StoredSessions
import Vesper.Lib.Machine

/-!
# Sending to a group

`doDistribute`, `prefetchGroupSenderKeys`, `encryptForGroup` and `encryptBinaryForGroup` of `useE2E.ts`, from
the sender's side. A new sender is saved before anyone is given its key.
-/

namespace Vesper.Client.GroupSending
open Unicode (Utf16 encode)
open StoredSessions SenderKey Program
variable {P : Primitives} (F : ByteForms P)

/-! ## The module and its surroundings -/

/-- The singletons of the module. -/
structure E2EModule (P : Primitives) where
  identity : Option (IdentityKeys P)
  initialized : Bool
  currentUserId : Option Nat

/-- How the POST of the keys ends. One that fails may still have stored some: each is a statement of its
own. -/
inductive Post where
  | accepted
  | failed (stored : Nat → Bool) (e : Thrown)

/-- The server has stored the key for the recipient. -/
def Post.stores : Post → Nat → Bool
  | .accepted, _ => true
  | .failed stored _, recipientId => stored recipientId

def Post.result : Post → Except Thrown Unit
  | .accepted => .ok ()
  | .failed _ e => .error e

/-- What a `doDistribute` draws, and how its requests end. -/
structure Attempt (P : Primitives) where
  keyId : UInt32
  chainKey : Vector UInt8 32
  signingKey : P.SigningKey
  ek : Nat → P.Secret
  iv : Nat → Vector UInt8 12
  bundle : Nat → Except Thrown Utf16
  post : Post

/-- The sender of `groupSenderGenerate`. -/
def Attempt.sender (a : Attempt P) : SenderState P := .generate a.keyId a.chainKey a.signingKey

/-- That the server has stored a recipient's key for a sender. -/
structure Given (P : Primitives) where
  conversationId : Nat
  recipientId : Nat
  sender : SenderState P

/-- The `group_sender` store, and of the history what the server has stored and with which senders something
was encrypted. -/
structure SenderSide (P : Primitives) where
  groupSender : ByteStore
  given : List (Given P)
  used : List (Nat × Bytes)

abbrev SendProgram (P : Primitives) := Program (SenderSide P) Thrown

/-- A program on the store. -/
def onSenders {α : Type} (m : StoreProgram α) : SendProgram P α :=
  m.zoom (·.groupSender) fun s groupSender => { s with groupSender }

def senderKey (conversationId : Nat) : String := toString conversationId

/-! ## Distribution -/

/-- `x3dh_init(65) | nonce(12) | aes-gcm-ct` -/
def sealDistMsg (ikDhSecret distMsg recipientBundle : Bytes) (ek : P.Secret) (iv : Vector UInt8 12) :
    Except Thrown Bytes := do
  let result ← x3dhSendBytes F ikDhSecret recipientBundle ek
  let sk ← exact32 (result.take 32)
  let initMsg := (result.drop 32).take 65
  let ct ← subtleEncrypt (F.block.symm sk) iv.toList distMsg
  return initMsg ++ (iv.toList ++ F.cipher ct)

/-- The key for a member; `maxArgs` is how many arguments the engine takes. -/
def Attempt.encryptedKey (a : Attempt P) (maxArgs : Nat) (identity : IdentityKeys P) (memberId : Nat) :
    Except Thrown Utf16 := do
  let bundle ← a.bundle memberId >>= b64Dec
  let envelope ← sealDistMsg F (F.secret identity.ikDhSecret).toList (a.sender.distributionBytes F) bundle
    (a.ek memberId) (a.iv memberId)
  b64Enc maxArgs envelope

/-- A member whose key fails is left out. -/
def Attempt.payloads (a : Attempt P) (maxArgs : Nat) (identity : IdentityKeys P) (memberUserIds : List Nat) :
    List (Nat × Utf16) :=
  memberUserIds.filterMap fun memberId =>
    (a.encryptedKey F maxArgs identity memberId).toOption.map fun encryptedKey => (memberId, encryptedKey)

def doDistribute (maxArgs : Nat) (idb : Idb) (e2e : E2EModule P) (conversationId : Nat)
    (memberUserIds : List Nat) (a : Attempt P) : SendProgram P Unit :=
  match e2e.identity, e2e.initialized with
  | some identity, true => do
    onSenders (save idb (senderKey conversationId) (a.sender.toBytes F))
    let payloads := a.payloads F maxArgs identity memberUserIds
    if payloads ≠ [] then do
      modify fun s => { s with given := s.given ++ (payloads.filter (a.post.stores ·.1)).map fun payload =>
        ⟨conversationId, payload.1, a.sender⟩ }
      await a.post.result
    else return ()
  | _, _ => return ()

/-- `entries` are the sender and the version of each entry; whether one of them has given the client its own
key is what the receivers come to. -/
def prefetchGroupSenderKeys (maxArgs : Nat) (idb : Idb) (e2e : E2EModule P)
    (entries : Except Thrown (List (Nat × Option Nat))) (hasMySenderKey : Bool) (conversationId : Nat)
    (memberUserIds : List Nat) (a : Attempt P) : SendProgram P Unit :=
  match e2e.identity, e2e.initialized, e2e.currentUserId, entries with
  | some _, true, some currentUserId, .ok entries =>
    let myEntryExists := entries.any fun entry => entry = (currentUserId, some 2)
    if !hasMySenderKey && !myEntryExists then
      doDistribute F maxArgs idb e2e conversationId memberUserIds a
    else return ()
  | _, _, _, _ => return ()

/-! ## Encryption -/

/-- Encrypts with a sender, which is saved before the ciphertext is encoded. -/
def encryptWith (maxArgs : Nat) (idb : Idb) (conversationId : Nat) (senderBytes plaintext : Bytes) :
    SendProgram P Utf16 := do
  let (ciphertext, newSenderBytes) ← await (Worker.groupSenderEncrypt F senderBytes plaintext)
  onSenders (save idb (senderKey conversationId) newSenderBytes)
  let text ← await (b64Enc maxArgs ciphertext)
  modify fun s => { s with used := s.used ++ [(conversationId, senderBytes)] }
  return V2_GROUP ++ text

def encryptForGroup (maxArgs : Nat) (idb : Idb) (e2e : E2EModule P) (content : Utf16) (conversationId : Nat) :
    SendProgram P Utf16 :=
  if e2e.identity.isNone ∨ !e2e.initialized then return content
  else do
    match ← onSenders (load idb (senderKey conversationId)) with
    | none => return content
    | some senderBytes => encryptWith F maxArgs idb conversationId senderBytes (encode content)

/-- The sender to encrypt a file with. Without one a new key is distributed, under the same lock. -/
def senderForBinary (maxArgs : Nat) (idb : Idb) (e2e : E2EModule P) (conversationId : Nat)
    (memberIds : Option (List Nat)) (a : Attempt P) : SendProgram P (Option Bytes) := do
  let stored ← onSenders (load idb (senderKey conversationId))
  match stored, memberIds with
  | some senderBytes, _ => return some senderBytes
  | none, none | none, some [] => return none
  | none, some memberIds =>
    doDistribute F maxArgs idb e2e conversationId memberIds a
    onSenders (load idb (senderKey conversationId))

def encryptBinaryForGroup (maxArgs : Nat) (idb : Idb) (e2e : E2EModule P) (data : Bytes) (conversationId : Nat)
    (memberIds : Option (List Nat)) (a : Attempt P) : SendProgram P Bytes :=
  if e2e.identity.isNone ∨ !e2e.initialized then return data
  else do
    match ← senderForBinary F maxArgs idb e2e conversationId memberIds a with
    | none => return data
    | some senderBytes =>
      let text ← encryptWith F maxArgs idb conversationId senderBytes data
      return encode text

/-- A deletion that fails is not heard of. -/
def invalidateGroupKeys (idb : Idb) (conversationId : Nat) : SendProgram P Unit :=
  match idb.put with
  | .ok () => modify fun s =>
    { s with groupSender := Function.update s.groupSender (senderKey conversationId) none }
  | .error _ => return ()

/-- The text of a message. -/
def groupText (msg : SenderKeyMessage P) : Utf16 :=
  V2_GROUP ++ (Base64.toSextets (messageBytes F msg)).map urlChar

/-- What is returned is the text of the sender's next message. -/
theorem encryptWith_result {maxArgs : Nat} {idb : Idb} {conversationId : Nat} {senderBytes plaintext : Bytes} :
    Triple (fun _ => True) (encryptWith F maxArgs idb conversationId senderBytes plaintext)
      (fun text _ => ∃ s msg, SenderState.fromBytes F senderBytes = .ok s ∧
        (SenderKey.encrypt s plaintext).2 = .ok msg ∧ text = groupText F msg) fun _ => True := by
  intro side _
  simp only [encryptWith, onSenders, save, exec_bind, exec_zoom, exec_await, exec_modify]
  rcases hencrypt : Worker.groupSenderEncrypt F senderBytes plaintext with e | ⟨ciphertext, newSenderBytes⟩
  · trivial
  rcases hput : idb.put with e | _
  · trivial
  rcases htext : b64Enc maxArgs ciphertext with e | text
  · simp only [htext]
  simp only [htext, exec_pure]
  obtain ⟨s, msg, hread, hmsg, rfl, -⟩ := (Worker.groupSenderEncrypt_eq_ok_iff F).mp hencrypt
  obtain ⟨-, rfl⟩ := b64Enc_eq_ok_iff.mp htext
  exact ⟨s, msg, hread, hmsg, rfl⟩

/-! ## One distribution -/

section
variable {maxArgs : Nat} {idb : Idb} {e2e : E2EModule P} {conversationId : Nat} {memberUserIds : List Nat}
  {a : Attempt P} {s : SenderSide P}

/-- The keys of the members whose bundle could be sealed. -/
def Attempt.sealedKeys (a : Attempt P) (maxArgs : Nat) (e2e : E2EModule P) (memberUserIds : List Nat) :
    List (Nat × Utf16) :=
  match e2e.identity with
  | some identity => a.payloads F maxArgs identity memberUserIds
  | none => []

/-- The recipients whose key the server has stored in between. -/
def newRecipients (before after : SenderSide P) : List Nat :=
  (after.given.drop before.given.length).map (·.recipientId)

/-- The sender of before stays if a sealed key is not stored, and if no key is. -/
structure FailsClean (sealedKeys : List (Nat × Utf16)) (before after : SenderSide P) : Prop where
  partly : (∃ key ∈ sealedKeys, key.1 ∉ newRecipients before after) → after.groupSender = before.groupSender
  nobody : newRecipients before after = [] → after.groupSender = before.groupSender

/-- Nothing is saved, or the server stores the key of each member whose bundle could be sealed, of which there
is one. The new sender may also be the one before it. -/
def Delivers (maxArgs : Nat) (idb : Idb) (e2e : E2EModule P) (conversationId : Nat) (memberUserIds : List Nat)
    (a : Attempt P) (s : SenderSide P) : Prop :=
  e2e.identity = none ∨ e2e.initialized = false ∨ idb.put ≠ .ok () ∨
    s.groupSender (senderKey conversationId) = some (a.sender.toBytes F) ∨
    a.sealedKeys F maxArgs e2e memberUserIds ≠ [] ∧
      ∀ key ∈ a.sealedKeys F maxArgs e2e memberUserIds, a.post.stores key.1

/-- What the server stores of the keys. -/
def Attempt.gives (a : Attempt P) (maxArgs : Nat) (e2e : E2EModule P) (conversationId : Nat)
    (memberUserIds : List Nat) : List (Given P) :=
  ((a.sealedKeys F maxArgs e2e memberUserIds).filter (a.post.stores ·.1)).map fun key =>
    ⟨conversationId, key.1, a.sender⟩

/-- Without an identity, before the module is initialised, or when the new sender is not saved. -/
theorem doDistribute_unsaved (h : e2e.identity = none ∨ e2e.initialized = false ∨ idb.put ≠ .ok ()) :
    ((doDistribute F maxArgs idb e2e conversationId memberUserIds a).exec s).2 = s := by
  unfold doDistribute
  split
  · rename_i identity hidentity hinitialized
    rw [hidentity, hinitialized] at h
    have hput := (h.resolve_left nofun).resolve_left nofun
    rw [exec_bind, onSenders, exec_zoom, save, exec_bind]
    rcases hresult : idb.put with e | _
    · rfl
    · exact absurd hresult hput
  · rfl

/-- The sender is saved, whatever becomes of its keys. -/
theorem doDistribute_saved {identity : IdentityKeys P} (hidentity : e2e.identity = some identity)
    (hinitialized : e2e.initialized = true) (hput : idb.put = .ok ()) :
    ((doDistribute F maxArgs idb e2e conversationId memberUserIds a).exec s).2 =
      { s with
        groupSender :=
          Function.update s.groupSender (senderKey conversationId) (some (a.sender.toBytes F))
        given := s.given ++ a.gives F maxArgs e2e conversationId memberUserIds } := by
  simp only [doDistribute, hidentity, hinitialized, Attempt.gives, Attempt.sealedKeys, onSenders, save, exec_bind,
    exec_zoom, exec_await, exec_modify, hput]
  split
  · simp only [exec_bind, exec_modify, exec_await]
  · rename_i hempty
    rw [not_not.mp hempty]
    simp

theorem newRecipients_append {given : List (Given P)} {groupSender : ByteStore} :
    newRecipients s { s with groupSender, given := s.given ++ given } = given.map (·.recipientId) := by
  rw [newRecipients, List.drop_left]

theorem mem_gives {key : Nat × Utf16} (hkey : key ∈ a.sealedKeys F maxArgs e2e memberUserIds) :
    key.1 ∈ (a.gives F maxArgs e2e conversationId memberUserIds).map (·.recipientId) ↔ a.post.stores key.1 := by
  simp only [Attempt.gives, List.map_map, List.mem_map, List.mem_filter, Function.comp_def]
  constructor
  · rintro ⟨key', ⟨-, hstores⟩, heq⟩
    rwa [← heq]
  · intro hstores
    exact ⟨key, ⟨hkey, hstores⟩, rfl⟩

/-- A distribution fails cleanly exactly if it delivers. -/
theorem failsClean_doDistribute_iff :
    FailsClean (a.sealedKeys F maxArgs e2e memberUserIds) s
      ((doDistribute F maxArgs idb e2e conversationId memberUserIds a).exec s).2 ↔
      Delivers F maxArgs idb e2e conversationId memberUserIds a s := by
  by_cases hsaved : e2e.identity = none ∨ e2e.initialized = false ∨ idb.put ≠ .ok ()
  · rw [doDistribute_unsaved F hsaved]
    refine iff_of_true ⟨fun _ => rfl, fun _ => rfl⟩ ?_
    rcases hsaved with h | h | h
    · exact .inl h
    · exact .inr (.inl h)
    · exact .inr (.inr (.inl h))
  · simp only [not_or, ne_eq, not_not, Bool.not_eq_false] at hsaved
    obtain ⟨identity, hidentity⟩ := Option.ne_none_iff_exists'.mp hsaved.1
    rw [doDistribute_saved F hidentity hsaved.2.1 hsaved.2.2]
    have hsame : Function.update s.groupSender (senderKey conversationId) (some (a.sender.toBytes F)) =
        s.groupSender ↔ s.groupSender (senderKey conversationId) = some (a.sender.toBytes F) := by
      constructor
      · intro h
        rw [← h, Function.update_self]
      · intro h
        rw [← h, Function.update_eq_self]
    have hnew : ((a.gives F maxArgs e2e conversationId memberUserIds).map (·.recipientId) = []) ↔
        ∀ key ∈ a.sealedKeys F maxArgs e2e memberUserIds, ¬ a.post.stores key.1 := by
      rw [List.map_eq_nil_iff, Attempt.gives, List.map_eq_nil_iff, List.filter_eq_nil_iff]
    constructor
    · intro h
      by_cases hprevious : s.groupSender (senderKey conversationId) = some (a.sender.toBytes F)
      · exact .inr (.inr (.inr (.inl hprevious)))
      have hchanged := mt hsame.mp hprevious
      refine .inr (.inr (.inr (.inr ⟨fun hempty => ?_, fun key hkey => ?_⟩)))
      · refine hchanged (h.nobody ?_)
        rw [newRecipients_append, hnew, hempty]
        exact nofun
      · by_contra hstores
        refine hchanged (h.partly ⟨key, hkey, ?_⟩)
        rwa [newRecipients_append, mem_gives F hkey]
    · rintro (h | h | h | h | ⟨hsome, hstores⟩)
      · exact absurd h hsaved.1
      · rw [h] at hsaved
        exact absurd hsaved.2.1 nofun
      · exact absurd hsaved.2.2 h
      · exact ⟨fun _ => hsame.mpr h, fun _ => hsame.mpr h⟩
      · refine ⟨?_, fun hnone => ?_⟩
        · rintro ⟨key, hkey, hmissing⟩
          rw [newRecipients_append, mem_gives F hkey] at hmissing
          exact absurd (hstores key hkey) hmissing
        · rw [newRecipients_append, hnew] at hnone
          obtain ⟨key, hkey⟩ := List.exists_mem_of_ne_nil _ hsome
          exact absurd (hstores key hkey) (hnone key hkey)

end

/-! ## Runs -/

inductive SendStep (P : Primitives) where
  /-- Also what a request for redistribution leads to. -/
  | distributeMySenderKey (conversationId : Nat) (memberUserIds : List Nat) (a : Attempt P)
  | prefetchGroupSenderKeys (entries : Except Thrown (List (Nat × Option Nat))) (hasMySenderKey : Bool)
    (conversationId : Nat) (memberUserIds : List Nat) (a : Attempt P)
  | encryptForGroup (content : Utf16) (conversationId : Nat)
  | encryptBinaryForGroup (data : Bytes) (conversationId : Nat) (memberIds : Option (List Nat)) (a : Attempt P)
  | invalidateGroupKeys (conversationId : Nat)

/-- A call, with the state of the module and of the database at its time. -/
structure SendCall (P : Primitives) where
  idb : Idb
  e2e : E2EModule P
  step : SendStep P

/-- What a call leaves; what it returns or throws goes to its caller. -/
def SendCall.after (maxArgs : Nat) (s : SenderSide P) (c : SendCall P) : SenderSide P :=
  match c.step with
  | .distributeMySenderKey conversationId memberUserIds a =>
    ((doDistribute F maxArgs c.idb c.e2e conversationId memberUserIds a).exec s).2
  | .prefetchGroupSenderKeys entries hasMySenderKey conversationId memberUserIds a =>
    ((prefetchGroupSenderKeys F maxArgs c.idb c.e2e entries hasMySenderKey conversationId memberUserIds a).exec
      s).2
  | .encryptForGroup content conversationId =>
    ((encryptForGroup F maxArgs c.idb c.e2e content conversationId).exec s).2
  | .encryptBinaryForGroup data conversationId memberIds a =>
    ((encryptBinaryForGroup F maxArgs c.idb c.e2e data conversationId memberIds a).exec s).2
  | .invalidateGroupKeys conversationId => ((invalidateGroupKeys c.idb conversationId).exec s).2

/-- The calls in any order, from any senders. -/
def sending (maxArgs : Nat) (senders : ByteStore) : Machine (SenderSide P) (SendCall P) where
  init := ⟨senders, [], []⟩
  enabled _ _ := True
  next := SendCall.after F maxArgs

/-- The call distributes nothing, or delivers what it distributes. -/
def SendCall.Delivers (maxArgs : Nat) (s : SenderSide P) (c : SendCall P) : Prop :=
  match c.step with
  | .distributeMySenderKey conversationId memberUserIds a =>
    GroupSending.Delivers F maxArgs c.idb c.e2e conversationId memberUserIds a s
  | .prefetchGroupSenderKeys entries hasMySenderKey conversationId memberUserIds a =>
    ∀ currentUserId found, c.e2e.currentUserId = some currentUserId → entries = .ok found →
      hasMySenderKey = false → (currentUserId, some 2) ∉ found →
      GroupSending.Delivers F maxArgs c.idb c.e2e conversationId memberUserIds a s
  | .encryptBinaryForGroup _ conversationId memberIds a =>
    ∀ memberUserIds, memberIds = some memberUserIds → memberUserIds ≠ [] →
      s.groupSender (senderKey conversationId) = none →
      GroupSending.Delivers F maxArgs c.idb c.e2e conversationId memberUserIds a s
  | .encryptForGroup .. | .invalidateGroupKeys _ => True

/-- A sender some messages later. -/
inductive Later (s : SenderState P) : SenderState P → Prop
  | refl : Later s s
  | encrypt : Later s t → Later s (SenderKey.encrypt t plaintext).1

/-- The sender is on the chain of one that was there from the start, or whose key a member was given. -/
def Founded (senders : ByteStore) (given : List (Given P)) (conversationId : Nat) (t : SenderState P) : Prop :=
  ∃ s, Later s t ∧
    ((∃ bytes, senders (senderKey conversationId) = some bytes ∧ SenderState.fromBytes F bytes = .ok s) ∨
      ∃ g ∈ given, g.conversationId = conversationId ∧ g.sender = s)

/-- What is stored, and what was used, is founded. -/
structure Sound (senders : ByteStore) (s : SenderSide P) : Prop where
  stored : ∀ conversationId bytes t, s.groupSender (senderKey conversationId) = some bytes →
    SenderState.fromBytes F bytes = .ok t → Founded F senders s.given conversationId t
  used : ∀ use ∈ s.used, ∃ t, SenderState.fromBytes F use.2 = .ok t ∧ Founded F senders s.given use.1 t

theorem senderKey_inj {m n : Nat} : senderKey m = senderKey n ↔ m = n := toString_nat_inj

section
variable {maxArgs : Nat} {idb : Idb} {e2e : E2EModule P} {senders : ByteStore} {s : SenderSide P}
  {conversationId : Nat} {memberUserIds : List Nat} {a : Attempt P}

theorem Founded.mono {given given' : List (Given P)} {t : SenderState P}
    (h : Founded F senders given conversationId t) (hsub : given ⊆ given') :
    Founded F senders given' conversationId t := by
  obtain ⟨s, hlater, horigin⟩ := h
  refine ⟨s, hlater, horigin.imp_right ?_⟩
  rintro ⟨g, hg, hsame⟩
  exact ⟨g, hsub hg, hsame⟩

/-- Another sender is stored for the conversation. -/
theorem Sound.update (h : Sound F senders s) {given : List (Given P)} {bytes? : Option Bytes}
    (hsub : s.given ⊆ given)
    (hbytes : ∀ bytes t, bytes? = some bytes → SenderState.fromBytes F bytes = .ok t →
      Founded F senders given conversationId t) :
    Sound F senders { s with
      groupSender := Function.update s.groupSender (senderKey conversationId) bytes?, given } := by
  refine ⟨fun conversationId' bytes t hstored hread => ?_, fun use huse => ?_⟩
  · by_cases hc : conversationId' = conversationId
    · subst hc
      dsimp only at hstored
      rw [Function.update_self] at hstored
      exact hbytes bytes t hstored hread
    · dsimp only at hstored
      rw [Function.update_of_ne (mt senderKey_inj.mp hc)] at hstored
      exact (h.stored conversationId' bytes t hstored hread).mono F hsub
  · obtain ⟨t, hread, hfounded⟩ := h.used use huse
    exact ⟨t, hread, hfounded.mono F hsub⟩

theorem Sound.doDistribute (h : Sound F senders s)
    (hdelivers : Delivers F maxArgs idb e2e conversationId memberUserIds a s) :
    Sound F senders ((doDistribute F maxArgs idb e2e conversationId memberUserIds a).exec s).2 := by
  by_cases hsaved : e2e.identity = none ∨ e2e.initialized = false ∨ idb.put ≠ .ok ()
  · rwa [doDistribute_unsaved F hsaved]
  · simp only [not_or, ne_eq, not_not, Bool.not_eq_false] at hsaved
    obtain ⟨identity, hidentity⟩ := Option.ne_none_iff_exists'.mp hsaved.1
    rw [doDistribute_saved F hidentity hsaved.2.1 hsaved.2.2]
    refine h.update F (List.subset_append_left ..) fun bytes t hbytes hread => ?_
    obtain rfl := Option.some.inj hbytes
    rcases hdelivers with hno | hno | hno | hprevious | ⟨hsome, hstores⟩
    · exact absurd hno hsaved.1
    · rw [hno] at hsaved
      exact absurd hsaved.2.1 nofun
    · exact absurd hsaved.2.2 hno
    · exact (h.stored conversationId _ t hprevious hread).mono F (List.subset_append_left ..)
    · rw [SenderState.fromBytes_toBytes] at hread
      obtain rfl := Except.ok.inj hread
      obtain ⟨key, hkey⟩ := List.exists_mem_of_ne_nil _ hsome
      have hgiven : key.1 ∈ (a.gives F maxArgs e2e conversationId memberUserIds).map (·.recipientId) :=
        (mem_gives F hkey).mpr (hstores key hkey)
      obtain ⟨g, hg, -⟩ := List.mem_map.mp hgiven
      refine ⟨a.sender, .refl, .inr ⟨g, List.mem_append_right _ hg, ?_⟩⟩
      obtain ⟨-, -, rfl⟩ := List.mem_map.mp hg
      exact ⟨rfl, rfl⟩

theorem triple_loadSender {I : SenderSide P → Prop} {key : String} :
    Triple I (onSenders (load idb key)) (fun stored s => I s ∧ s.groupSender key = stored) I := by
  intro s hs
  rw [onSenders, exec_zoom, load, exec_bind, exec_await]
  rcases idb.get with e | _
  · exact hs
  · exact ⟨hs, rfl⟩

theorem triple_saveSender {I J : SenderSide P → Prop} {key : String} {bytes : Bytes}
    (h : ∀ s, I s → J { s with groupSender := Function.update s.groupSender key (some bytes) }) :
    Triple I (onSenders (save idb key bytes)) (fun _ => J) I := by
  intro s hs
  rw [onSenders, exec_zoom, save, exec_bind, exec_await]
  rcases idb.put with e | _
  · exact hs
  · exact h s hs

theorem Sound.use (h : Sound F senders s) {bytes : Bytes} {t : SenderState P}
    (hread : SenderState.fromBytes F bytes = .ok t) (hfounded : Founded F senders s.given conversationId t) :
    Sound F senders { s with used := s.used ++ [(conversationId, bytes)] } := by
  refine ⟨h.stored, fun use huse => ?_⟩
  rcases List.mem_append.mp huse with huse | huse
  · exact h.used use huse
  · rw [List.mem_singleton.mp huse]
    exact ⟨t, hread, hfounded⟩

/-- Encrypting stays on the chain of the stored sender. -/
theorem sound_encryptWith {senderBytes plaintext : Bytes} :
    Triple (fun s => Sound F senders s ∧ s.groupSender (senderKey conversationId) = some senderBytes)
      (encryptWith F maxArgs idb conversationId senderBytes plaintext) (fun _ => Sound F senders)
      (Sound F senders) := by
  refine Triple.bind (Q := fun result s => (Sound F senders s ∧ s.groupSender (senderKey conversationId) =
      some senderBytes) ∧ Worker.groupSenderEncrypt F senderBytes plaintext = .ok result)
    (Triple.await (fun _ _ hs hresult => ⟨hs, hresult⟩) fun _ hs => hs.1) ?_
  rintro ⟨ciphertext, newSenderBytes⟩
  refine .given fun hresult => ?_
  obtain ⟨t, msg, hread, -, -, rfl⟩ := (Worker.groupSenderEncrypt_eq_ok_iff F).mp hresult
  refine Triple.bind (Q := fun _ s => Sound F senders s ∧ Founded F senders s.given conversationId t) ?_ fun _ => ?_
  · refine (triple_saveSender fun s ⟨hsound, hstored⟩ => ?_).weaken (fun _ _ h => h) fun _ h => h.1
    obtain ⟨s₀, hlater, horigin⟩ := hsound.stored conversationId senderBytes t hstored hread
    refine ⟨hsound.update F (List.Subset.refl _) fun bytes t' hbytes hread' => ?_, s₀, hlater, horigin⟩
    obtain rfl := Option.some.inj hbytes
    rw [SenderState.fromBytes_toBytes] at hread'
    obtain rfl := Except.ok.inj hread'
    exact ⟨s₀, hlater.encrypt, horigin⟩
  · refine Triple.bind (Q := fun _ s => Sound F senders s ∧ Founded F senders s.given conversationId t)
      (Triple.await (fun _ _ hs _ => hs) fun _ hs => hs.1) fun text => ?_
    refine Triple.bind (Q := fun _ => Sound F senders)
      (.modify fun s ⟨hsound, hfounded⟩ => hsound.use F hread hfounded) fun _ => ?_
    exact .pure fun _ hs => hs

theorem sound_encryptForGroup {content : Utf16} :
    Triple (Sound F senders) (encryptForGroup F maxArgs idb e2e content conversationId)
      (fun _ => Sound F senders) (Sound F senders) := by
  unfold encryptForGroup
  split
  · exact .pure fun _ hs => hs
  refine triple_loadSender.bind fun stored => ?_
  cases stored with
  | none => exact .pure fun _ hs => hs.1
  | some senderBytes => exact sound_encryptWith F

/-- A distribution that the encryption of a file makes finds no sender. -/
theorem sound_senderForBinary {memberIds : Option (List Nat)} (h : Sound F senders s)
    (hdelivers : ∀ memberUserIds, memberIds = some memberUserIds → memberUserIds ≠ [] →
      s.groupSender (senderKey conversationId) = none →
      Delivers F maxArgs idb e2e conversationId memberUserIds a s) :
    Triple (· = s) (senderForBinary F maxArgs idb e2e conversationId memberIds a)
      (fun stored s => Sound F senders s ∧ s.groupSender (senderKey conversationId) = stored)
      (Sound F senders) := by
  refine (triple_loadSender.weaken (fun _ _ hs => hs) fun _ hs => hs ▸ h).bind fun stored => ?_
  split
  · exact .pure fun _ hs => ⟨hs.1 ▸ h, hs.2⟩
  · exact .pure fun _ hs => ⟨hs.1 ▸ h, hs.2⟩
  · exact .pure fun _ hs => ⟨hs.1 ▸ h, hs.2⟩
  · rename_i memberUserIds hne
    refine Triple.bind (Q := fun _ => Sound F senders) (fun s' hs => ?_) fun _ => triple_loadSender
    obtain ⟨rfl, hnone⟩ := hs
    have hafter := h.doDistribute F (hdelivers memberUserIds rfl hne hnone)
    rcases hexec : (doDistribute F maxArgs idb e2e conversationId memberUserIds a).exec s' with ⟨_ | _, after⟩ <;>
      rw [hexec] at hafter <;> exact hafter

theorem sound_encryptBinaryForGroup {data : Bytes} {memberIds : Option (List Nat)} (h : Sound F senders s)
    (hdelivers : ∀ memberUserIds, memberIds = some memberUserIds → memberUserIds ≠ [] →
      s.groupSender (senderKey conversationId) = none →
      Delivers F maxArgs idb e2e conversationId memberUserIds a s) :
    Sound F senders
      ((encryptBinaryForGroup F maxArgs idb e2e data conversationId memberIds a).exec s).2 := by
  refine Triple.after (P := (· = s)) (E := Sound F senders) ?_ rfl
  unfold encryptBinaryForGroup
  split
  · exact .pure fun _ hs => hs ▸ h
  refine (sound_senderForBinary F h hdelivers).bind fun stored => ?_
  cases stored with
  | none => exact .pure fun _ hs => hs.1
  | some senderBytes => exact (sound_encryptWith F).bind fun text => .pure fun _ hs => hs

/-- One call. -/
theorem Sound.after (h : Sound F senders s) {c : SendCall P} (hdelivers : c.Delivers F maxArgs s) :
    Sound F senders (c.after F maxArgs s) := by
  obtain ⟨idb, e2e, step⟩ := c
  cases step with
  | distributeMySenderKey conversationId memberUserIds a => exact h.doDistribute F hdelivers
  | prefetchGroupSenderKeys entries hasMySenderKey conversationId memberUserIds a =>
    show Sound F senders ((prefetchGroupSenderKeys F maxArgs idb e2e entries hasMySenderKey conversationId
      memberUserIds a).exec s).2
    unfold prefetchGroupSenderKeys
    split
    · rename_i currentUserId found hidentity hinitialized hcurrent
      dsimp only
      split
      · rename_i hlacks
        simp only [Bool.and_eq_true, Bool.not_eq_true', List.any_eq_false, decide_eq_true_eq] at hlacks
        exact h.doDistribute F (hdelivers currentUserId _ hcurrent rfl hlacks.1
          fun hmem => hlacks.2 _ hmem rfl)
      · exact h
    · exact h
  | encryptForGroup content conversationId => exact (sound_encryptForGroup F).after h
  | encryptBinaryForGroup data conversationId memberIds a => exact sound_encryptBinaryForGroup F h hdelivers
  | invalidateGroupKeys conversationId =>
    show Sound F senders ((invalidateGroupKeys idb conversationId).exec s).2
    unfold invalidateGroupKeys
    split
    · exact h.update F (List.Subset.refl _) nofun
    · exact h

end

/-- **A distribution fails cleanly** exactly if it delivers. In every run whose distributions deliver, whatever
is encrypted for a group is on the chain of a sender from the start, or of one that a member was given. -/
theorem distribution_iff (maxArgs : Nat) :
    (∀ idb e2e conversationId memberUserIds a s,
      FailsClean (a.sealedKeys F maxArgs e2e memberUserIds) s
        ((doDistribute F maxArgs idb e2e conversationId memberUserIds a).exec s).2 ↔
        Delivers F maxArgs idb e2e conversationId memberUserIds a s) ∧
    ∀ senders s, ((sending F maxArgs senders).restrict (SendCall.Delivers F maxArgs)).Reachable s →
      ∀ use ∈ s.used, ∃ t, SenderState.fromBytes F use.2 = .ok t ∧ Founded F senders s.given use.1 t := by
  refine ⟨fun _ _ _ _ _ _ => failsClean_doDistribute_iff F, fun senders s hs => ?_⟩
  have hsound : Sound F senders s := by
    refine hs.invariant ⟨fun conversationId bytes t hstored hread => ?_, nofun⟩
      fun s c _ hsound hc => hsound.after F hc.2
    exact ⟨t, .refl, .inl ⟨bytes, hstored, hread⟩⟩
  exact hsound.used

/-! ## A member and its key -/

def readyModule : E2EModule plainPrimitives := ⟨some plainIdentity, true, some 1⟩

def sampleSender : SenderState plainPrimitives := .generate 1 (.replicate 32 1) (.replicate 32 2)

/-- Every member has the same bundle. -/
def sampleAttempt (post : Post) : Attempt plainPrimitives where
  keyId := 1
  chainKey := .replicate 32 1
  signingKey := .replicate 32 2
  ek _ := .replicate 32 3
  iv _ := .replicate 12 4
  bundle _ := .ok ((Base64.toSextets (sampleBundle 1)).map urlChar)
  post

/-- It is sealed, however the request ends. -/
theorem sealedKeys_sample (post : Post) :
    ∃ key, (sampleAttempt post).sealedKeys plainForms 65536 readyModule [7] = [(7, key)] := by
  have henvelope : (sealDistMsg plainForms (List.replicate 32 1) (sampleSender.distributionBytes plainForms)
      (sampleBundle 1) (.replicate 32 3) (.replicate 12 4)).map List.length = .ok 165 := by
    decide +kernel
  obtain ⟨envelope, hseal, hlength⟩ := map_eq_ok.mp henvelope
  have hkey : (sampleAttempt post).encryptedKey plainForms 65536 plainIdentity 7 =
      .ok ((Base64.toSextets envelope).map urlChar) := by
    have hbundle : ((sampleAttempt post).bundle 7 >>= b64Dec) = .ok (sampleBundle 1) :=
      bind_eq_ok.mpr ⟨_, rfl, b64Dec_map_urlChar (sampleBundle 1)⟩
    rw [Attempt.encryptedKey, hbundle]
    exact bind_eq_ok.mpr ⟨_, rfl, bind_eq_ok.mpr ⟨envelope, hseal, b64Enc_eq_ok_iff.mpr ⟨by omega, rfl⟩⟩⟩
  refine ⟨(Base64.toSextets envelope).map urlChar, ?_⟩
  show (sampleAttempt post).payloads plainForms 65536 plainIdentity [7] = _
  rw [Attempt.payloads, List.filterMap_cons, hkey]
  rfl

/-- The key is given, and a message encrypted. -/
def sampleCalls : List (SendCall plainPrimitives) :=
  [⟨soundIdb, readyModule, .distributeMySenderKey 5 [7] (sampleAttempt .accepted)⟩,
    ⟨soundIdb, readyModule, .encryptForGroup [104, 105] 5⟩]

theorem distribution_sample :
    let s := (sending plainForms 65536 fun _ => none).exec ⟨fun _ => none, [], []⟩ sampleCalls
    ∀ use ∈ s.used, ∃ t, SenderState.fromBytes plainForms use.2 = .ok t ∧
      Founded plainForms (fun _ => none) s.given use.1 t := by
  refine (distribution_iff plainForms 65536).2 _ _
    (Machine.reachable_iff.mpr ⟨sampleCalls, ⟨⟨trivial, ?_⟩, ⟨trivial, trivial⟩, trivial⟩, rfl⟩)
  obtain ⟨key, hkeys⟩ := sealedKeys_sample .accepted
  refine .inr (.inr (.inr (.inr ⟨?_, fun _ _ => rfl⟩)))
  rw [hkeys]
  exact nofun

/-- The key is sealed, the request to store it fails, and the new sender is there. -/
theorem failed_post_not_clean :
    let a := sampleAttempt (.failed (fun _ => false) (.js "Network Error"))
    ¬ FailsClean (a.sealedKeys plainForms 65536 readyModule [7]) ⟨fun _ => none, [], []⟩
      ((doDistribute plainForms 65536 soundIdb readyModule 5 [7] a).exec ⟨fun _ => none, [], []⟩).2 := by
  intro a hclean
  obtain ⟨key, hkeys⟩ := sealedKeys_sample (.failed (fun _ => false) (.js "Network Error"))
  rcases (failsClean_doDistribute_iff plainForms).mp hclean with h | h | h | h | ⟨-, h⟩
  · cases h
  · cases h
  · exact h rfl
  · cases h
  · exact absurd (h (7, key) (hkeys ▸ List.mem_singleton_self _)) nofun

end Vesper.Client.GroupSending
