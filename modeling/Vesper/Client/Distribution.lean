import Vesper.Client.GroupCalls

/-!
# Sender keys of a group

`distributeMySenderKey`, `prefetchGroupSenderKeys`, `encryptForGroup` and `decryptFromGroup`, called
by the members of one group in any order. Every distribution makes a new sender key, and a receiver
once stored is never replaced: who holds one is lost to the next distribution, and so is who is not
given it.
-/

namespace Vesper.Client
open SenderKey X3dh
open DoubleRatchet (keyPair)
variable {P : Primitives}

/-! ## Distributions -/

/-- The random values of a `doDistribute`, and what becomes of its requests. -/
structure Distribution (P : Primitives) where
  keyId : UInt32
  chainKey : Vector UInt8 32
  signingKey : P.SigningKey
  /-- The members whose bundle is fetched. -/
  fetched : Nat → Bool
  ek : Nat → P.Secret
  iv : Nat → Bytes
  /-- The server takes the keys. -/
  posted : Bool

/-- The sender of `groupSenderGenerate`. -/
def Distribution.sender (d : Distribution P) : SenderState P :=
  .generate d.keyId d.chainKey d.signingKey

def Distribution.seed (d : Distribution P) : Seed P := ⟨d.keyId, P.block d.chainKey, d.signingKey⟩

/-- The `createDistributionMessage` of `groupSenderGenerate`:
`key_id(4) || iteration(4) || chain_key(32) || signing_pub(32)`. -/
def Distribution.distMsg (d : Distribution P) : Bytes :=
  be32 d.keyId ++ (be32 0 ++ (d.chainKey.toList ++ (P.verifyingKey d.signingKey).bytes.toList))

/-- What the sender distributes is what the receiver starts from. -/
theorem Distribution.receiverFromDist_distMsg (d : Distribution P) :
    receiverFromDist d.distMsg =
      some (processDistributionMessage (createDistributionMessage d.sender)) := by
  rw [Distribution.distMsg, receiverFromDist_append]
  rfl

/-! ## The group -/

structure GroupChat (P : Primitives) where
  conversationId : Nat
  members : List Nat
  identity : Nat → IdentityKeys P

/-- What `encryptForGroup` returns: without a sender key, the content itself. -/
inductive GroupContent (P : Primitives) where
  | plain (content : Bytes)
  | v2g (msg : SenderKeyMessage P)

/-- A message of the group. `due` are the members that had completed `prefetchGroupSenderKeys` since
the sender's most recent distribution. -/
structure GroupMessage (P : Primitives) where
  senderId : Nat
  content : GroupContent P
  plaintext : Bytes
  due : List Nat

/-- The object stores of all members, the `GroupSenderKey` rows by sender and recipient, the messages
in the order sent; and of the history of each member, to whom it made its most recent distribution,
who has completed `prefetchGroupSenderKeys` since, and what it decrypted of each sender. -/
structure GroupWorld (P : Primitives) where
  senders : Nat → Option (SenderState P)
  receivers : Nat → GroupReceiverStore P
  senderKeys : Nat × Nat → Option (Envelope P)
  messages : List (GroupMessage P)
  given : Nat → List Nat
  ready : Nat → List Nat
  opened : Nat → Nat → List (SenderKeyMessage P)

/-- What a member does. The gateway relays the request of any member at any time. -/
inductive GroupStep (P : Primitives) where
  | distributeMySenderKey (userId : Nat) (memberUserIds : List Nat) (d : Distribution P)
  | senderKeyRedistributionRequested (userId requesterId : Nat) (d : Distribution P)
  | prefetchGroupSenderKeys (userId : Nat) (memberUserIds : List Nat) (d : Distribution P)
  | encryptForGroup (userId : Nat) (content : Bytes)
  /-- Of the message at the given place. -/
  | decryptFromGroup (userId : Nat) (i : Nat)

def GroupStep.userId : GroupStep P → Nat
  | .distributeMySenderKey u _ _ | .senderKeyRedistributionRequested u _ _
  | .prefetchGroupSenderKeys u _ _ | .encryptForGroup u _ | .decryptFromGroup u _ => u

/-- `upsert` of the key for each recipient. -/
def setSenderKey (table : Nat × Nat → Option (Envelope P)) (requesterId : Nat)
    (keys : List (Nat × Envelope P)) : Nat × Nat → Option (Envelope P) :=
  keys.foldl (fun table key => Function.update table (requesterId, key.1) (some key.2)) table

/-- A core that throws saves nothing and sends nothing. -/
def GroupWorld.encryptForGroup (w : GroupWorld P) (userId : Nat) (content : Bytes) : GroupWorld P :=
  match w.senders userId with
  | none => { w with messages := w.messages ++ [⟨userId, .plain content, content, w.ready userId⟩] }
  | some sender =>
    match SenderKey.encrypt sender content with
    | (newSender, .ok msg) =>
      { w with
        senders := Function.update w.senders userId (some newSender)
        messages := w.messages ++ [⟨userId, .v2g msg, content, w.ready userId⟩] }
    | (_, .error _) => w

namespace GroupChat
variable (g : GroupChat P)

def fetchBundle (d : Distribution P) (memberId : Nat) : Except Thrown (X3dhBundle P) :=
  if d.fetched memberId then .ok (buildBundle (g.identity memberId))
  else .error (.js "Request failed")

/-- The envelope of the distribution for a member. -/
def envelope (userId : Nat) (d : Distribution P) (memberId : Nat) :
    Except Thrown (Envelope P) := do
  let bundle ← g.fetchBundle d memberId
  sealDistMsg (g.identity userId).ikDhSecret d.distMsg bundle (d.ek memberId) (d.iv memberId)

/-- A member whose envelope fails is left out. -/
def payloads (userId : Nat) (memberUserIds : List Nat) (d : Distribution P) :
    List (Nat × Envelope P) :=
  memberUserIds.filterMap fun memberId =>
    (g.envelope userId d memberId).toOption.map fun envelope => (memberId, envelope)

def doDistribute (w : GroupWorld P) (userId : Nat) (memberUserIds : List Nat)
    (d : Distribution P) : GroupWorld P :=
  let keys := if d.posted then g.payloads userId memberUserIds d else []
  { w with
    senders := Function.update w.senders userId (some d.sender)
    senderKeys := setSenderKey w.senderKeys userId keys
    given := Function.update w.given userId (keys.map Prod.fst)
    ready := Function.update w.ready userId [] }

/-- `sender-keys/for-me`: only members have rows. -/
def getSenderKeysForMe (w : GroupWorld P) (userId : Nat) : List (SenderKeyEntry P) :=
  g.members.filterMap fun senderId =>
    (w.senderKeys (senderId, userId)).map fun envelope => ⟨senderId, some 2, some envelope⟩

/-- The entries of `prefetchGroupSenderKeys`, one by one. -/
def prefetchEntries (w : GroupWorld P) (userId : Nat) : GroupWorld P :=
  { w with
    receivers := Function.update w.receivers userId <|
      (g.getSenderKeysForMe w userId).foldl
        (fun store entry => prefetchEntry (g.identity userId) store g.conversationId entry)
        (w.receivers userId)
    ready := fun senderId =>
      if (w.senders senderId).isSome then userId :: w.ready senderId else w.ready senderId }

/-- No entry is the member's own. -/
def lacksMySenderKey (w : GroupWorld P) (userId : Nat) : Bool :=
  let entries := g.getSenderKeysForMe w userId
  let hasMySenderKey := entries.any fun entry => entry.senderId = userId ∧
    (Client.prefetchGroupSenderKeys (g.identity userId) entry
      (w.receivers userId (receiverKey g.conversationId entry.senderId))).2 = .hasKey
  let myEntryExists := entries.any fun entry => entry.senderId = userId ∧ entry.version = some 2
  !hasMySenderKey && !myEntryExists

def prefetchGroupSenderKeys (w : GroupWorld P) (userId : Nat) (memberUserIds : List Nat)
    (d : Distribution P) : GroupWorld P :=
  let w' := g.prefetchEntries w userId
  if g.lacksMySenderKey w userId then g.doDistribute w' userId memberUserIds d else w'

/-- The member's `decryptFromGroup` of a `v2g` text of the sender. -/
def read (w : GroupWorld P) (userId senderId : Nat) (msg : SenderKeyMessage P) :
    Option (Option (ReceiverState P)) × Except String Bytes :=
  Client.decryptFromGroup (some (some msg))
    (w.receivers userId (receiverKey g.conversationId senderId))

/-- A text that is not `v2g` goes to the first version of the encryption, which keeps no state. -/
def decryptFromGroup (w : GroupWorld P) (userId i : Nat) : GroupWorld P :=
  match w.messages[i]? with
  | some ⟨senderId, .v2g msg, _, _⟩ =>
    match g.read w userId senderId msg with
    | (some receiver?, _) =>
      { w with
        receivers := Function.update w.receivers userId
          (Function.update (w.receivers userId) (receiverKey g.conversationId senderId) receiver?)
        opened := Function.update w.opened userId
          (Function.update (w.opened userId) senderId (w.opened userId senderId ++ [msg])) }
    | (none, _) => w
  | _ => w

def next (w : GroupWorld P) : GroupStep P → GroupWorld P
  | .distributeMySenderKey userId memberUserIds d => g.doDistribute w userId memberUserIds d
  | .senderKeyRedistributionRequested userId requesterId d =>
    g.doDistribute w userId [requesterId] d
  | .prefetchGroupSenderKeys userId memberUserIds d =>
    g.prefetchGroupSenderKeys w userId memberUserIds d
  | .encryptForGroup userId content => w.encryptForGroup userId content
  | .decryptFromGroup userId i => g.decryptFromGroup w userId i

/-- The members call what they like, from empty object stores. -/
def machine : Machine (GroupWorld P) (GroupStep P) where
  init := ⟨fun _ => none, fun _ _ => none, fun _ => none, [], fun _ => [], fun _ => [], fun _ _ => []⟩
  enabled _ step := step.userId ∈ g.members
  next := g.next

end GroupChat

/-! ## What is to be read -/

/-- The member has not decrypted the message before, and is not too far behind it. -/
def GroupChat.Pending (g : GroupChat P) (w : GroupWorld P) (m : Nat) (x : GroupMessage P) : Prop :=
  match x.content with
  | .plain _ => True
  | .v2g msg => (∀ a ∈ w.opened m x.senderId, a.payload ≠ msg.payload) ∧
    ∀ r ∈ w.receivers m (receiverKey g.conversationId x.senderId),
      msg.iteration.toNat ≤ r.iteration.toNat + MAX_SKIP.toNat

/-- The member decrypts the message. -/
def GroupChat.Reads (g : GroupChat P) (w : GroupWorld P) (m : Nat) (x : GroupMessage P) : Prop :=
  match x.content with
  | .plain _ => False
  | .v2g msg => (g.read w m x.senderId msg).2 = .ok x.plaintext

/-- What the sender encrypted after the member's `prefetchGroupSenderKeys`, the member decrypts. -/
def GroupChat.Usable (g : GroupChat P) (s m : Nat) (w : GroupWorld P) : Prop :=
  ∀ x ∈ w.messages, x.senderId = s → m ∈ x.due → g.Pending w m x → g.Reads w m x

/-! ## Rows and entries -/

section
variable {table : Nat × Nat → Option (Envelope P)} {s m u : Nat} {keys : List (Nat × Envelope P)}

theorem setSenderKey_frame (h : u = s → m ∉ keys.map Prod.fst) :
    setSenderKey table u keys (s, m) = table (s, m) := by
  induction keys generalizing table with
  | nil => rfl
  | cons key keys ih =>
    have hne : (s, m) ≠ (u, key.1) := by
      rintro heq
      obtain ⟨rfl, rfl⟩ := Prod.mk.inj heq
      exact h rfl List.mem_cons_self
    refine (ih fun hu => ?_).trans (Function.update_of_ne hne ..)
    exact fun hm => h hu (List.mem_cons_of_mem _ hm)

/-- The row of a recipient holds one of its keys. -/
theorem setSenderKey_of_mem (hm : m ∈ keys.map Prod.fst) :
    ∃ envelope, (m, envelope) ∈ keys ∧ setSenderKey table s keys (s, m) = some envelope := by
  induction keys generalizing table with
  | nil => cases hm
  | cons key keys ih =>
    by_cases hrest : m ∈ keys.map Prod.fst
    · obtain ⟨envelope, hmem, hrow⟩ := ih hrest
      exact ⟨envelope, List.mem_cons_of_mem _ hmem, hrow⟩
    · obtain rfl : m = key.1 := (List.mem_cons.mp hm).resolve_right hrest
      refine ⟨key.2, List.mem_cons_self, (setSenderKey_frame fun _ => hrest).trans ?_⟩
      exact Function.update_self ..

theorem receiverKey_inj {c : Nat} : receiverKey c s = receiverKey c m ↔ s = m := by
  refine ⟨fun h => ?_, fun h => h ▸ rfl⟩
  exact toString_nat_inj.mp ((String.append_right_inj _).mp h)

variable {identity : IdentityKeys P} {store : GroupReceiverStore P} {c : Nat}
  {entries : List (SenderKeyEntry P)}

/-- The receiver that an entry brings. -/
def SenderKeyEntry.receiver? (identity : IdentityKeys P) (entry : SenderKeyEntry P) :
    Option (ReceiverState P) :=
  match entry.version, entry.encryptedKey with
  | some 2, some envelope => (openDistMsg identity envelope).bind receiverFromDist
  | _, _ => none

theorem prefetchEntry_apply {entry : SenderKeyEntry P} :
    prefetchEntry identity store c entry (receiverKey c s) =
      if entry.senderId = s then (store (receiverKey c s)).or (entry.receiver? identity)
      else store (receiverKey c s) := by
  obtain ⟨senderId, version, encryptedKey⟩ := entry
  by_cases hs : senderId = s
  · subst hs
    rw [if_pos rfl]
    match version, encryptedKey with
    | some 2, some envelope =>
      dsimp only [prefetchEntry, SenderKeyEntry.receiver?]
      cases hr : store (receiverKey c senderId) with
      | some r => simp [hr]
      | none =>
        rcases hopen : openDistMsg identity envelope with _ | distMsg
        · simp [hr, hopen]
        · cases hdist : receiverFromDist (P := P) distMsg <;> simp [hr, hopen, hdist]
    | none, _ | some 0, _ | some 1, _ | some (_ + 3), _ | some 2, none => exact Option.or_none.symm
  · have hkey : receiverKey c s ≠ receiverKey c senderId := fun h => hs (receiverKey_inj.mp h).symm
    rw [if_neg hs]
    match version, encryptedKey with
    | some 2, some envelope =>
      cases hstored : (store (receiverKey c senderId)).isSome with
      | true => simp only [prefetchEntry, hstored, if_true]
      | false =>
        rcases hopen : openDistMsg identity envelope with _ | distMsg
        · simp [prefetchEntry, hstored, hopen]
        · cases hdist : receiverFromDist (P := P) distMsg <;>
            simp [prefetchEntry, hstored, hopen, hdist, Function.update_of_ne hkey]
    | none, _ | some 0, _ | some 1, _ | some (_ + 3), _ | some 2, none => rfl

/-- What is stored stays; else the first entry that brings a receiver counts. -/
theorem foldl_prefetchEntry :
    entries.foldl (fun store entry => prefetchEntry identity store c entry) store (receiverKey c s) =
      (store (receiverKey c s)).or
        ((entries.filter (·.senderId = s)).findSome? (·.receiver? identity)) := by
  induction entries generalizing store with
  | nil => simp
  | cons entry entries ih =>
    rw [List.foldl_cons, ih, prefetchEntry_apply]
    by_cases hs : entry.senderId = s <;>
      simp [hs, List.findSome?_cons, Option.or_assoc]
    cases entry.receiver? identity <;> rfl

variable {g : GroupChat P} {w : GroupWorld P}

theorem mem_getSenderKeysForMe {entry : SenderKeyEntry P} :
    entry ∈ g.getSenderKeysForMe w m ↔ entry.senderId ∈ g.members ∧
      ∃ envelope, w.senderKeys (entry.senderId, m) = some envelope ∧
        entry = ⟨entry.senderId, some 2, some envelope⟩ := by
  simp only [GroupChat.getSenderKeysForMe, List.mem_filterMap, Option.map_eq_some_iff]
  constructor
  · rintro ⟨senderId, hmem, envelope, hrow, rfl⟩
    exact ⟨hmem, envelope, hrow, rfl⟩
  · rintro ⟨hmem, envelope, hrow, hentry⟩
    exact ⟨_, hmem, envelope, hrow, hentry.symm⟩

end

/-! ## A sender and a member -/

/-- What bears on the messages of one sender to one member. -/
structure Pair (P : Primitives) where
  sender : Option (SenderState P)
  receiver : Option (ReceiverState P)
  encryptedKey : Option (Envelope P)
  given : Bool
  ready : Bool
  opened : List (SenderKeyMessage P)
  messages : List (GroupMessage P)

def GroupChat.pair (g : GroupChat P) (s m : Nat) (w : GroupWorld P) : Pair P where
  sender := w.senders s
  receiver := w.receivers m (receiverKey g.conversationId s)
  encryptedKey := w.senderKeys (s, m)
  given := m ∈ w.given s
  ready := m ∈ w.ready s
  opened := w.opened m s
  messages := w.messages.filter (·.senderId = s)

/-- The signature of the message verifies under the key. -/
def GroupMessage.verifies (x : GroupMessage P) (key : IdentityPublicKey) : Bool :=
  match x.content with
  | .plain _ => false
  | .v2g msg => (key.verify P msg.payload msg.signature) matches .ok ()

namespace Pair
variable {identity : IdentityKeys P} {m : Nat} {p : Pair P} {d : Distribution P}

/-- The receiver, if there is one, is on the chain of the sender's most recent distribution. -/
structure OnChain (identity : IdentityKeys P) (m : Nat) (p : Pair P) (d : Distribution P)
    (c : Channel P) : Prop where
  inStep : InStep d.seed c
  sender : p.sender = some c.sender
  receiver : p.receiver = c.receiver
  joined : c.joined = 0
  opened : p.opened = c.accepted
  entry : p.given → ∃ envelope, p.encryptedKey = some envelope ∧
    openDistMsg identity envelope = some d.distMsg
  messages : ∀ x ∈ p.messages, (∃ msg, x.content = .v2g msg ∧ (msg, x.plaintext) ∈ c.sent) ∨
    m ∉ x.due ∧ ¬x.verifies (P.verifyingKey d.signingKey)

structure Agrees (identity : IdentityKeys P) (m : Nat) (p : Pair P) : Prop where
  undistributed : p.sender = none → p.encryptedKey = none ∧ p.receiver = none
  chain : p.sender.isSome → ∃ d c, p.OnChain identity m d c
  empty : p.receiver = none → p.ready = false ∧ p.opened = [] ∧ ∀ x ∈ p.messages, m ∉ x.due

/-- A distribution that finds no receiver. -/
theorem Agrees.distribute (h : p.Agrees identity m) (hnone : p.receiver = none)
    (hfresh : ∀ x ∈ p.messages, ¬x.verifies (P.verifyingKey d.signingKey)) {given : Bool}
    {encryptedKey : Option (Envelope P)}
    (hentry : given → ∃ envelope, encryptedKey = some envelope ∧
      openDistMsg identity envelope = some d.distMsg) :
    Agrees identity m { p with sender := some d.sender, encryptedKey, given, ready := false } := by
  obtain ⟨-, hopened, hdue⟩ := h.empty hnone
  refine ⟨nofun, fun _ => ⟨d, d.seed.channel.init, ?_⟩, fun _ => ⟨rfl, hopened, hdue⟩⟩
  exact {
    inStep := d.seed.inStep
    sender := rfl
    receiver := hnone
    joined := rfl
    opened := hopened
    entry := hentry
    messages := fun x hx => .inr ⟨hdue x hx, hfresh x hx⟩ }

/-- The receiver that the row brings. -/
def brought (identity : IdentityKeys P) (p : Pair P) : Option (ReceiverState P) :=
  p.encryptedKey.bind fun envelope => (openDistMsg identity envelope).bind receiverFromDist

/-- The member's `prefetchGroupSenderKeys`, after a distribution that was made for it. -/
theorem Agrees.prefetch (h : p.Agrees identity m) (hgiven : p.sender.isSome → p.given) :
    Agrees identity m { p with
      receiver := p.receiver.or (p.brought identity), ready := p.sender.isSome || p.ready } := by
  cases hsender : p.sender with
  | none =>
    obtain ⟨hkey, hnone⟩ := h.undistributed hsender
    have hbrought : p.brought identity = none := by rw [brought, hkey]; rfl
    have hready := h.empty hnone
    rw [hnone, hbrought]
    exact ⟨fun _ => ⟨hkey, rfl⟩, nofun, fun _ => hready⟩
  | some sender =>
    have hsome : p.sender.isSome := by rw [hsender]; rfl
    obtain ⟨d, c, hc⟩ := h.chain hsome
    cases hreceiver : p.receiver with
    | some r =>
      rw [Option.some_or]
      refine ⟨nofun, fun _ => ⟨d, c, ?_⟩, nofun⟩
      exact { hc with
        sender := hsender.symm.trans hc.sender
        receiver := hreceiver.symm.trans hc.receiver }
    | none =>
      obtain ⟨envelope, hkey, hopen⟩ := hc.entry (hgiven hsome)
      have hbrought : p.brought identity =
          some (processDistributionMessage (createDistributionMessage d.sender)) := by
        simp only [brought, hkey, Option.bind_some, hopen, d.receiverFromDist_distMsg]
      rw [hbrought, Option.none_or]
      have haccepted := hc.inStep.fresh (hc.receiver.symm.trans hreceiver)
      refine ⟨nofun, fun _ => ⟨d, { c with
        receiver := some (processDistributionMessage (createDistributionMessage d.sender)) }, ?_⟩,
        nofun⟩
      refine { hc with
        inStep := { hc.inStep with receiver := ?_, fresh := nofun }
        sender := hsender.symm.trans hc.sender
        receiver := rfl }
      have hchain : d.sender.chainKey =
          DoubleRatchet.chainKey d.seed.chainKey d.sender.iteration.toNat := rfl
      have hstands := Stands.of_distribution hchain
      rintro r hr
      obtain rfl := Option.some.inj hr
      refine ⟨rfl, ?_⟩
      simp only [hc.joined, haccepted]
      exact hstands

/-- An encryption without a sender key. -/
theorem Agrees.plain (h : p.Agrees identity m) (hsender : p.sender = none) {x : GroupMessage P}
    (hdue : m ∈ x.due → p.ready) :
    Agrees identity m { p with messages := p.messages ++ [x] } := by
  obtain ⟨hready, hopened, hmessages⟩ := h.empty (h.undistributed hsender).2
  refine ⟨h.undistributed, fun hsome => by simp [hsender] at hsome, fun _ => ⟨hready, hopened, ?_⟩⟩
  intro y hy
  rcases List.mem_append.mp hy with hy | hy
  · exact hmessages y hy
  · rw [List.mem_singleton.mp hy]
    exact fun hm => Bool.false_ne_true (hready.symm.trans (hdue hm))

theorem Agrees.encrypt (h : p.Agrees identity m) {sender newSender : SenderState P}
    {x : GroupMessage P} {msg : SenderKeyMessage P} (hsender : p.sender = some sender)
    (henc : SenderKey.encrypt sender x.plaintext = (newSender, .ok msg))
    (hcontent : x.content = .v2g msg) (hlt : sender.iteration.toNat < 2 ^ 32 - 1)
    (hdue : m ∈ x.due → p.ready) :
    Agrees identity m { p with sender := some newSender, messages := p.messages ++ [x] } := by
  obtain ⟨d, c, hc⟩ := h.chain (by rw [hsender]; rfl)
  obtain rfl : sender = c.sender := Option.some.inj (hsender.symm.trans hc.sender)
  have hnew : (c.encrypt x.plaintext).sender = newSender := by simp only [Channel.encrypt, henc]
  have hsent : (c.encrypt x.plaintext).sent = c.sent ++ [(msg, x.plaintext)] := by
    simp only [Channel.encrypt, henc]
  refine ⟨nofun, fun _ => ⟨d, c.encrypt x.plaintext, ?_⟩, fun hnone => ?_⟩
  · refine { hc with
      inStep := hc.inStep.encrypt x.plaintext hlt
      sender := congrArg some hnew.symm
      messages := fun y hy => ?_ }
    rw [hsent]
    rcases List.mem_append.mp hy with hy | hy
    · refine (hc.messages y hy).imp_left ?_
      rintro ⟨msg, hcontent, hmem⟩
      exact ⟨msg, hcontent, List.mem_append_left _ hmem⟩
    · rw [List.mem_singleton.mp hy]
      exact .inl ⟨msg, hcontent, List.mem_append_right _ (List.mem_singleton.mpr rfl)⟩
  · obtain ⟨hready, hopened, hmessages⟩ := h.empty hnone
    refine ⟨hready, hopened, fun y hy => ?_⟩
    rcases List.mem_append.mp hy with hy | hy
    · exact hmessages y hy
    · rw [List.mem_singleton.mp hy]
      exact fun hm => Bool.false_ne_true (hready.symm.trans (hdue hm))

theorem Agrees.decrypt (haead : AeadInverts P) (h : p.Agrees identity m) {x : GroupMessage P}
    {msg : SenderKeyMessage P} {r r' : ReceiverState P} {plaintext : Bytes} (hx : x ∈ p.messages)
    (hcontent : x.content = .v2g msg) (hr : p.receiver = some r)
    (hdec : SenderKey.decrypt r msg = (r', .ok plaintext)) :
    Agrees identity m { p with receiver := some r', opened := p.opened ++ [msg] } := by
  have hsender : p.sender ≠ none := fun hnone => by simp [(h.undistributed hnone).2] at hr
  obtain ⟨d, c, hc⟩ := h.chain (Option.isSome_iff_ne_none.mpr hsender)
  have hreceiver := hc.receiver.symm.trans hr
  have hideal : c.IdealSignature msg := by
    intro receiver hreceiver' hv
    rcases hc.messages x hx with ⟨msg', hcontent', hmem⟩ | ⟨-, hforeign⟩
    · cases hcontent.symm.trans hcontent'
      exact ⟨_, hmem, rfl⟩
    · rw [(hc.inStep.receiver receiver hreceiver').1] at hv
      have hv : (P.verifyingKey d.signingKey).verify P msg.payload msg.signature = .ok () := hv
      exact absurd (by simp only [GroupMessage.verifies, hcontent, hv]) hforeign
  have hdeliver := deliver_accepted hreceiver hdec
  have hstep := hc.inStep.deliver haead (Nat.le_pred_of_lt (UInt32.toNat_lt _)) hideal
  rw [hdeliver] at hstep
  refine ⟨fun hnone => absurd hnone hsender, fun _ => ⟨d, { c with
    receiver := some r', accepted := c.accepted ++ [msg] }, ?_⟩, nofun⟩
  exact { hc with inStep := hstep, receiver := rfl, opened := congrArg (· ++ [msg]) hc.opened }

/-- The member reads what the sender encrypted since. -/
theorem Agrees.readable (hsig : SignatureVerifies P) (haead : AeadInverts P)
    (h : p.Agrees identity m) {x : GroupMessage P} (hx : x ∈ p.messages) (hdue : m ∈ x.due) :
    ∃ msg r, x.content = .v2g msg ∧ p.receiver = some r ∧
      ((∀ a ∈ p.opened, a.payload ≠ msg.payload) →
        msg.iteration.toNat ≤ r.iteration.toNat + MAX_SKIP.toNat →
          (SenderKey.decrypt r msg).2 = .ok x.plaintext) := by
  cases hr : p.receiver with
  | none => exact absurd hdue ((h.empty hr).2.2 x hx)
  | some r =>
    have hsender : p.sender ≠ none := fun hnone => by simp [(h.undistributed hnone).2] at hr
    obtain ⟨d, c, hc⟩ := h.chain (Option.isSome_iff_ne_none.mpr hsender)
    obtain ⟨msg, hcontent, hmem⟩ := (hc.messages x hx).resolve_right fun hold => hold.1 hdue
    have hreceiver := hc.receiver.symm.trans hr
    refine ⟨msg, r, hcontent, rfl, fun hnew hgap => ?_⟩
    have hv : r.signingPub.verify P msg.payload msg.signature = .ok () := by
      rw [(hc.inStep.receiver r hreceiver).1, (hc.inStep.sent _ hmem).2.signature]
      exact hsig ..
    rw [hc.opened] at hnew
    obtain ⟨r', hdec, -⟩ := hc.inStep.genuine haead hreceiver hv hmem rfl
      (Nat.le_pred_of_lt (UInt32.toNat_lt _)) (by rw [hc.joined]; exact UInt32.zero_le)
      (fun ⟨a, ha, hp⟩ => hnew a ha hp) hgap
    rw [hdec]

end Pair

/-! ## The steps -/

namespace GroupChat
variable {g : GroupChat P} {w : GroupWorld P} {s m u : Nat} {d : Distribution P}
  {memberUserIds : List Nat}

/-- What a distribution leaves in the row of a recipient. -/
theorem openDistMsg_of_mem (hcomm : DhCommutes P) (haead : AeadInverts P) {envelope : Envelope P}
    (h : (m, envelope) ∈ if d.posted then g.payloads s memberUserIds d else []) :
    openDistMsg (g.identity m) envelope = some d.distMsg := by
  split at h
  · obtain ⟨memberId, -, hpayload⟩ := List.mem_filterMap.mp h
    obtain ⟨envelope, hsome, heq⟩ := Option.map_eq_some_iff.mp hpayload
    obtain ⟨rfl, rfl⟩ := Prod.mk.inj heq
    have hok : g.envelope s d memberId = .ok envelope := by
      cases henv : g.envelope s d memberId with
      | error e => simp [henv, Except.toOption] at hsome
      | ok a => simpa [henv, Except.toOption] using hsome
    simp only [GroupChat.envelope, bind_eq_ok, fetchBundle] at hok
    obtain ⟨bundle, hfetch, hseal⟩ := hok
    split at hfetch
    · cases hfetch
      exact openDistMsg_sealDistMsg hcomm haead hseal
    · cases hfetch
  · cases h

theorem pair_doDistribute_frame (hu : u ≠ s) :
    g.pair s m (g.doDistribute w u memberUserIds d) = g.pair s m w := by
  simp only [pair, doDistribute, Function.update_of_ne (Ne.symm hu),
    setSenderKey_frame fun h => absurd h hu]

theorem agrees_doDistribute (hcomm : DhCommutes P) (haead : AeadInverts P)
    (h : (g.pair s m w).Agrees (g.identity m) m)
    (hnone : u = s → w.receivers m (receiverKey g.conversationId s) = none)
    (hfresh : u = s → ∀ x ∈ w.messages, x.senderId = s → ¬x.verifies (P.verifyingKey d.signingKey)) :
    (g.pair s m (g.doDistribute w u memberUserIds d)).Agrees (g.identity m) m := by
  by_cases hu : u = s
  · subst hu
    have hpair : g.pair u m (g.doDistribute w u memberUserIds d) = { g.pair u m w with
        sender := some d.sender
        encryptedKey := (g.doDistribute w u memberUserIds d).senderKeys (u, m)
        given := m ∈ (g.doDistribute w u memberUserIds d).given u
        ready := false } := by
      simp [pair, doDistribute]
    rw [hpair]
    refine h.distribute (hnone rfl) (fun x hx => ?_) fun hgiven => ?_
    · obtain ⟨hx, hsender⟩ := List.mem_filter.mp hx
      exact hfresh rfl x hx (of_decide_eq_true hsender)
    · simp only [doDistribute, Function.update_self, decide_eq_true_eq] at hgiven
      obtain ⟨envelope, hmem, hrow⟩ := setSenderKey_of_mem hgiven
      exact ⟨envelope, hrow, openDistMsg_of_mem hcomm haead hmem⟩
  · rwa [pair_doDistribute_frame hu]

theorem pair_prefetchEntries_frame (hu : u ≠ m) :
    g.pair s m (g.prefetchEntries w u) = g.pair s m w := by
  simp only [pair, prefetchEntries, Function.update_of_ne (Ne.symm hu), Pair.mk.injEq, true_and,
    and_true]
  refine ⟨rfl, ?_⟩
  split <;> simp [Ne.symm hu]

/-- The entries of a sender bring what its row brings. -/
theorem findSome_getSenderKeysForMe (hs : (w.senderKeys (s, m)).isSome → s ∈ g.members) :
    ((g.getSenderKeysForMe w m).filter (·.senderId = s)).findSome? (·.receiver? (g.identity m)) =
      (g.pair s m w).brought (g.identity m) := by
  have hentries : ∀ entry ∈ (g.getSenderKeysForMe w m).filter (·.senderId = s),
      ∃ envelope, w.senderKeys (s, m) = some envelope ∧ entry = ⟨s, some 2, some envelope⟩ := by
    intro entry hentry
    obtain ⟨hmem, hsender⟩ := List.mem_filter.mp hentry
    obtain rfl : entry.senderId = s := of_decide_eq_true hsender
    exact (mem_getSenderKeysForMe.mp hmem).2
  show _ = (w.senderKeys (s, m)).bind _
  cases hrow : w.senderKeys (s, m) with
  | none =>
    have hnil : (g.getSenderKeysForMe w m).filter (·.senderId = s) = [] := by
      refine List.eq_nil_iff_forall_not_mem.mpr fun entry hentry => ?_
      obtain ⟨envelope, hsome, -⟩ := hentries entry hentry
      cases hrow.symm.trans hsome
    rw [hnil]
    rfl
  | some envelope =>
    have hall : ∀ entry ∈ (g.getSenderKeysForMe w m).filter (·.senderId = s),
        entry = ⟨s, some 2, some envelope⟩ := by
      intro entry hentry
      obtain ⟨envelope', hsome, rfl⟩ := hentries entry hentry
      cases hrow.symm.trans hsome
      rfl
    have hmem : (⟨s, some 2, some envelope⟩ : SenderKeyEntry P) ∈
        (g.getSenderKeysForMe w m).filter (·.senderId = s) := by
      refine List.mem_filter.mpr ⟨mem_getSenderKeysForMe.mpr ?_, decide_eq_true rfl⟩
      exact ⟨hs (by rw [hrow]; rfl), envelope, hrow, rfl⟩
    have hne := List.length_pos_of_mem hmem
    rw [List.eq_replicate_of_mem hall, List.findSome?_replicate, if_neg (by omega)]
    rfl

theorem pair_prefetchEntries_self (hs : (w.senderKeys (s, m)).isSome → s ∈ g.members) :
    g.pair s m (g.prefetchEntries w m) = { g.pair s m w with
      receiver := (g.pair s m w).receiver.or ((g.pair s m w).brought (g.identity m))
      ready := (g.pair s m w).sender.isSome || (g.pair s m w).ready } := by
  rw [← findSome_getSenderKeysForMe hs]
  simp only [pair, prefetchEntries, Function.update_self, foldl_prefetchEntry, Pair.mk.injEq,
    true_and, and_true]
  refine ⟨rfl, ?_⟩
  by_cases hsender : (w.senders s).isSome <;> simp [hsender]

/-- A member without an own entry has no own row. -/
theorem senderKeys_of_lacksMySenderKey (hu : u ∈ g.members) (h : g.lacksMySenderKey w u) :
    w.senderKeys (u, u) = none := by
  cases hrow : w.senderKeys (u, u) with
  | none => rfl
  | some envelope =>
    have hmem : (⟨u, some 2, some envelope⟩ : SenderKeyEntry P) ∈ g.getSenderKeysForMe w u :=
      mem_getSenderKeysForMe.mpr ⟨hu, envelope, hrow, rfl⟩
    simp only [lacksMySenderKey, Bool.and_eq_true, Bool.not_eq_true', List.any_eq_false,
      decide_eq_true_eq] at h
    exact absurd ⟨rfl, rfl⟩ (h.2 _ hmem)

theorem agrees_prefetchEntries (h : (g.pair s m w).Agrees (g.identity m) m)
    (hs : (w.senders s).isSome → s ∈ g.members)
    (hgiven : u = m → (w.senders s).isSome → m ∈ w.given s) :
    (g.pair s m (g.prefetchEntries w u)).Agrees (g.identity m) m := by
  by_cases hu : u = m
  · subst hu
    rw [pair_prefetchEntries_self fun hrow => hs ?_]
    · exact h.prefetch fun hsome => decide_eq_true (hgiven rfl hsome)
    · refine Option.isSome_iff_ne_none.mpr fun hnone => ?_
      have hkey : w.senderKeys (s, u) = none := (h.undistributed hnone).1
      simp [hkey] at hrow
  · rwa [pair_prefetchEntries_frame hu]

theorem agrees_prefetchGroupSenderKeys (hcomm : DhCommutes P) (haead : AeadInverts P)
    (h : (g.pair s m w).Agrees (g.identity m) m) (hs : (w.senders s).isSome → s ∈ g.members)
    (hu : u ∈ g.members) (hgiven : u = m → (w.senders s).isSome → m ∈ w.given s)
    (hnone : u = s → g.lacksMySenderKey w u → w.receivers m (receiverKey g.conversationId s) = none)
    (hfresh : u = s → ∀ x ∈ w.messages, x.senderId = s → ¬x.verifies (P.verifyingKey d.signingKey)) :
    (g.pair s m (g.prefetchGroupSenderKeys w u memberUserIds d)).Agrees (g.identity m) m := by
  have hentries := agrees_prefetchEntries h hs hgiven
  unfold prefetchGroupSenderKeys
  split
  case isFalse => exact hentries
  case isTrue hlacks =>
    refine agrees_doDistribute hcomm haead hentries (fun hus => ?_) hfresh
    have hreceiver := hnone hus hlacks
    show (g.pair s m (g.prefetchEntries w u)).receiver = none
    by_cases hum : u = m
    · -- the member's own row, which is missing
      subst hus hum
      rw [pair_prefetchEntries_self fun _ => hu]
      have hrow := senderKeys_of_lacksMySenderKey hu hlacks
      simp [pair, Pair.brought, hreceiver, hrow]
    · rw [pair_prefetchEntries_frame hum]
      exact hreceiver

theorem encryptForGroup_cases (w : GroupWorld P) (u : Nat) (content : Bytes) :
    w.encryptForGroup u content = w ∨
    (w.senders u = none ∧ w.encryptForGroup u content =
      { w with messages := w.messages ++ [⟨u, .plain content, content, w.ready u⟩] }) ∨
    ∃ sender newSender msg, w.senders u = some sender ∧
      SenderKey.encrypt sender content = (newSender, .ok msg) ∧
      w.encryptForGroup u content = { w with
        senders := Function.update w.senders u (some newSender)
        messages := w.messages ++ [⟨u, .v2g msg, content, w.ready u⟩] } := by
  unfold GroupWorld.encryptForGroup
  cases hsender : w.senders u with
  | none => exact .inr (.inl ⟨rfl, rfl⟩)
  | some sender =>
    rcases henc : SenderKey.encrypt sender content with ⟨newSender, e | msg⟩
    · simp only [henc, true_or]
    · simp only [henc]
      exact .inr (.inr ⟨sender, newSender, msg, rfl, henc, rfl⟩)

theorem agrees_encryptForGroup {content : Bytes} (h : (g.pair s m w).Agrees (g.identity m) m)
    (hlt : u = s → ∀ sender ∈ w.senders s, sender.iteration.toNat < 2 ^ 32 - 1) :
    (g.pair s m (w.encryptForGroup u content)).Agrees (g.identity m) m := by
  obtain hw | ⟨hsender, hw⟩ | ⟨sender, newSender, msg, hsender, henc, hw⟩ :=
    encryptForGroup_cases w u content
  · rwa [hw]
  · rw [hw]
    by_cases hu : u = s
    · subst hu
      have hplain := h.plain hsender (x := ⟨u, .plain content, content, w.ready u⟩) decide_eq_true
      simpa [pair, List.filter_append] using hplain
    · simpa [pair, List.filter_append, hu] using h
  · rw [hw]
    by_cases hu : u = s
    · subst hu
      have hsent := h.encrypt (x := ⟨u, .v2g msg, content, w.ready u⟩) hsender henc rfl
        (hlt rfl sender hsender) decide_eq_true
      simpa [pair, List.filter_append] using hsent
    · simpa [pair, List.filter_append, hu, Function.update_of_ne (Ne.symm hu)] using h

theorem read_saves {msg : SenderKeyMessage P} {receiver? : Option (ReceiverState P)}
    {result : Except String Bytes} (h : g.read w m s msg = (some receiver?, result)) :
    ∃ r r' plaintext, w.receivers m (receiverKey g.conversationId s) = some r ∧
      SenderKey.decrypt r msg = (r', .ok plaintext) ∧ receiver? = some r' := by
  simp only [read, Client.decryptFromGroup] at h
  cases hr : w.receivers m (receiverKey g.conversationId s) with
  | none => simp [hr] at h
  | some r =>
    rcases hdec : SenderKey.decrypt r msg with ⟨r', e | plaintext⟩
    · simp [hr, groupReceiverDecrypt, hdec] at h
    · simp only [hr, groupReceiverDecrypt, hdec, Prod.mk.injEq, Option.some.injEq] at h
      exact ⟨r, r', plaintext, rfl, hdec, h.1.symm⟩

theorem decryptFromGroup_cases (g : GroupChat P) (w : GroupWorld P) (u i : Nat) :
    g.decryptFromGroup w u i = w ∨
    ∃ x msg r r' plaintext, x ∈ w.messages ∧ x.content = .v2g msg ∧
      w.receivers u (receiverKey g.conversationId x.senderId) = some r ∧
      SenderKey.decrypt r msg = (r', .ok plaintext) ∧
      g.decryptFromGroup w u i = { w with
        receivers := Function.update w.receivers u
          (Function.update (w.receivers u) (receiverKey g.conversationId x.senderId) (some r'))
        opened := Function.update w.opened u
          (Function.update (w.opened u) x.senderId (w.opened u x.senderId ++ [msg])) } := by
  unfold decryptFromGroup
  split
  case h_2 => exact .inl rfl
  case h_1 senderId msg plaintext due hx =>
    split
    case h_2 => exact .inl rfl
    case h_1 receiver? result hread =>
      obtain ⟨r, r', plaintext, hr, hdec, rfl⟩ := read_saves hread
      exact .inr ⟨_, msg, r, r', plaintext, List.mem_of_getElem? hx, rfl, hr, hdec, rfl⟩

theorem agrees_decryptFromGroup (haead : AeadInverts P) {i : Nat}
    (h : (g.pair s m w).Agrees (g.identity m) m) :
    (g.pair s m (g.decryptFromGroup w u i)).Agrees (g.identity m) m := by
  obtain hw | ⟨x, msg, r, r', plaintext, hx, hcontent, hr, hdec, hw⟩ :=
    decryptFromGroup_cases g w u i
  · rwa [hw]
  rw [hw]
  by_cases hu : u = m
  · subst hu
    by_cases hs : x.senderId = s
    · subst hs
      have hopened := h.decrypt haead (List.mem_filter.mpr ⟨hx, decide_eq_true rfl⟩) hcontent hr hdec
      simpa [pair] using hopened
    · have hkey : receiverKey g.conversationId s ≠ receiverKey g.conversationId x.senderId :=
        fun heq => hs (receiverKey_inj.mp heq).symm
      simpa [pair, Function.update_of_ne hkey, Function.update_of_ne (Ne.symm hs)] using h
  · simpa [pair, Function.update_of_ne (Ne.symm hu)] using h

end GroupChat

/-! ## Runs -/

/-- The distributions of `s` take a new signing key, under which nothing sent before verifies, and
`s` encrypts fewer than `2 ^ 32` messages under one sender key. -/
def GroupChat.Ideal (s : Nat) (w : GroupWorld P) : GroupStep P → Prop
  | .distributeMySenderKey u _ d | .senderKeyRedistributionRequested u _ d
  | .prefetchGroupSenderKeys u _ d =>
    u = s → ∀ x ∈ w.messages, x.senderId = s → ¬x.verifies (P.verifyingKey d.signingKey)
  | .encryptForGroup u _ => u = s → ∀ sender ∈ w.senders s, sender.iteration.toNat < 2 ^ 32 - 1
  | .decryptFromGroup _ _ => True

/-- When `s` distributes, `m` has stored no receiver of it; and when `m` fetches, what `s` has
distributed last was made for `m` too. -/
def GroupChat.Reaches (g : GroupChat P) (s m : Nat) (w : GroupWorld P) : GroupStep P → Prop
  | .distributeMySenderKey u _ _ | .senderKeyRedistributionRequested u _ _ =>
    u = s → w.receivers m (receiverKey g.conversationId s) = none
  | .prefetchGroupSenderKeys u _ _ =>
    (u = m → (w.senders s).isSome → m ∈ w.given s) ∧
      (u = s → g.lacksMySenderKey w u → w.receivers m (receiverKey g.conversationId s) = none)
  | .encryptForGroup _ _ | .decryptFromGroup _ _ => True

section
variable {g : GroupChat P} {w : GroupWorld P} {s m : Nat} {step : GroupStep P}

theorem agrees_next (hcomm : DhCommutes P) (haead : AeadInverts P)
    (h : (g.pair s m w).Agrees (g.identity m) m) (hs : (w.senders s).isSome → s ∈ g.members)
    (hmember : step.userId ∈ g.members) (hideal : GroupChat.Ideal s w step)
    (hreaches : g.Reaches s m w step) : (g.pair s m (g.next w step)).Agrees (g.identity m) m := by
  cases step with
  | distributeMySenderKey u memberUserIds d =>
    exact GroupChat.agrees_doDistribute hcomm haead h hreaches hideal
  | senderKeyRedistributionRequested u requesterId d =>
    exact GroupChat.agrees_doDistribute hcomm haead h hreaches hideal
  | prefetchGroupSenderKeys u memberUserIds d =>
    exact GroupChat.agrees_prefetchGroupSenderKeys hcomm haead h hs hmember hreaches.1 hreaches.2
      hideal
  | encryptForGroup u content => exact GroupChat.agrees_encryptForGroup h hideal
  | decryptFromGroup u i => exact GroupChat.agrees_decryptFromGroup haead h

/-- Only members distribute. -/
theorem senders_next (hs : (w.senders s).isSome → s ∈ g.members)
    (hmember : step.userId ∈ g.members) (h : ((g.next w step).senders s).isSome) :
    s ∈ g.members := by
  have hupdate : ∀ {u sender}, u ∈ g.members →
      (Function.update w.senders u (some sender) s).isSome → s ∈ g.members := by
    intro u sender hu hsome
    by_cases hus : u = s
    · exact hus ▸ hu
    · rw [Function.update_of_ne (Ne.symm hus)] at hsome
      exact hs hsome
  cases step with
  | distributeMySenderKey u memberUserIds d => exact hupdate hmember h
  | senderKeyRedistributionRequested u requesterId d => exact hupdate hmember h
  | prefetchGroupSenderKeys u memberUserIds d =>
    simp only [GroupChat.next, GroupChat.prefetchGroupSenderKeys] at h
    split at h
    · exact hupdate hmember h
    · exact hs h
  | encryptForGroup u content =>
    obtain hw | ⟨-, hw⟩ | ⟨_, _, _, -, -, hw⟩ := GroupChat.encryptForGroup_cases w u content
    · exact hs (by rwa [GroupChat.next, hw] at h)
    · exact hs (by rwa [GroupChat.next, hw] at h)
    · exact hupdate hmember (by rwa [GroupChat.next, hw] at h)
  | decryptFromGroup u i =>
    obtain hw | ⟨_, _, _, _, _, -, -, -, -, hw⟩ := GroupChat.decryptFromGroup_cases g w u i <;>
      exact hs (by rwa [GroupChat.next, hw] at h)

theorem usable_of_agrees (hsig : SignatureVerifies P) (haead : AeadInverts P)
    (h : (g.pair s m w).Agrees (g.identity m) m) : g.Usable s m w := by
  rintro x hx rfl hdue hpending
  obtain ⟨msg, r, hcontent, hr, hdec⟩ :=
    h.readable hsig haead (List.mem_filter.mpr ⟨hx, decide_eq_true rfl⟩) hdue
  have hr : w.receivers m (receiverKey g.conversationId x.senderId) = some r := hr
  simp only [GroupChat.Pending, hcontent] at hpending
  have hdec := hdec hpending.1 (hpending.2 r hr)
  rcases hresult : SenderKey.decrypt r msg with ⟨r', result⟩
  rw [hresult] at hdec
  obtain rfl : result = .ok x.plaintext := hdec
  simp only [GroupChat.Reads, hcontent, GroupChat.read, decryptFromGroup, hr, groupReceiverDecrypt,
    hresult]

/-- **Sender keys stay usable**: what `s` encrypts after `m` has fetched its sender key, `m` decrypts,
in every run in which the distributions of `s` reach `m`. -/
theorem sender_keys_usable (hcomm : DhCommutes P) (hsig : SignatureVerifies P)
    (haead : AeadInverts P) (g : GroupChat P) (s m : Nat) {w : GroupWorld P}
    (hw : (g.machine.restrict fun w step =>
      GroupChat.Ideal s w step ∧ g.Reaches s m w step).Reachable w) : g.Usable s m w := by
  have hagrees : (g.pair s m w).Agrees (g.identity m) m ∧ ((w.senders s).isSome → s ∈ g.members) := by
    refine Machine.Reachable.invariant
      (M := g.machine.restrict fun w step => GroupChat.Ideal s w step ∧ g.Reaches s m w step)
      (I := fun w => (g.pair s m w).Agrees (g.identity m) m ∧
        ((w.senders s).isSome → s ∈ g.members)) ⟨⟨?_, nofun, ?_⟩, nofun⟩ ?_ hw
    · exact fun _ => ⟨rfl, rfl⟩
    · exact fun _ => ⟨rfl, rfl, nofun⟩
    · rintro w step - ⟨h, hs⟩ ⟨hmember, hideal, hreaches⟩
      exact ⟨agrees_next hcomm haead h hs hmember hideal hreaches, senders_next hs hmember⟩
  exact usable_of_agrees hsig haead hagrees.1

end

/-! ## A group of three -/

instance {s : Nat} {w : GroupWorld P} : (step : GroupStep P) → Decidable (GroupChat.Ideal s w step)
  | .distributeMySenderKey u _ _ | .senderKeyRedistributionRequested u _ _
  | .prefetchGroupSenderKeys u _ _ =>
    inferInstanceAs (Decidable (u = s → ∀ x ∈ w.messages, x.senderId = s → ¬x.verifies _))
  | .encryptForGroup u _ =>
    inferInstanceAs (Decidable (u = s → ∀ sender ∈ w.senders s, _ < _))
  | .decryptFromGroup _ _ => .isTrue trivial

instance {g : GroupChat P} {s m : Nat} {w : GroupWorld P} :
    (step : GroupStep P) → Decidable (g.Reaches s m w step)
  | .distributeMySenderKey u _ _ | .senderKeyRedistributionRequested u _ _ =>
    inferInstanceAs (Decidable (u = s → w.receivers m _ = none))
  | .prefetchGroupSenderKeys u _ _ =>
    inferInstanceAs (Decidable ((u = m → (w.senders s).isSome → m ∈ w.given s) ∧
      (u = s → g.lacksMySenderKey w u → w.receivers m _ = none)))
  | .encryptForGroup _ _ | .decryptFromGroup _ _ => .isTrue trivial

instance [DecidableEq P.Cipher] {g : GroupChat P} {w : GroupWorld P} {m : Nat} :
    (x : GroupMessage P) → Decidable (g.Pending w m x)
  | ⟨_, .plain _, _, _⟩ => .isTrue trivial
  | ⟨_, .v2g _, _, _⟩ =>
    inferInstanceAs (Decidable ((∀ a ∈ w.opened m _, _ ≠ _) ∧ ∀ r ∈ w.receivers m _, _ ≤ _))

instance {g : GroupChat P} {w : GroupWorld P} {m : Nat} :
    (x : GroupMessage P) → Decidable (g.Reads w m x)
  | ⟨_, .plain _, _, _⟩ => .isFalse id
  | ⟨_, .v2g _, _, _⟩ => inferInstanceAs (Decidable (_ = _))

instance [DecidableEq P.Cipher] {g : GroupChat P} {w : GroupWorld P} {s m : Nat} :
    Decidable (g.Usable s m w) :=
  inferInstanceAs (Decidable (∀ x ∈ w.messages, _ → _ → g.Pending w m x → g.Reads w m x))

instance {g : GroupChat P} (w : GroupWorld P) (step : GroupStep P) :
    Decidable (g.machine.enabled w step) :=
  inferInstanceAs (Decidable (step.userId ∈ g.members))

def sampleChat : GroupChat symbolic where
  conversationId := 7
  members := [1, 2, 3]
  identity u := sampleIdentity (.ofNat (10 * u))

/-- Everything goes well, with the byte for its random values. -/
def sampleDistribution (b : UInt8) : Distribution symbolic where
  keyId := b.toUInt32
  chainKey := .replicate 32 b
  signingKey := ⟨.replicate 32 b⟩
  fetched _ := true
  ek u := keyPair (b + .ofNat u)
  iv _ := .replicate 12 b
  posted := true

/-- The second member fetches the sender key of the first. -/
def fetching : List (GroupStep symbolic) := [
  .distributeMySenderKey 1 [1, 2, 3] (sampleDistribution 100),
  .prefetchGroupSenderKeys 2 [1, 2, 3] (sampleDistribution 110)]

/-- The first member answers a request of the third. -/
def answering : List (GroupStep symbolic) := [
  .senderKeyRedistributionRequested 1 3 (sampleDistribution 120),
  .prefetchGroupSenderKeys 2 [1, 2, 3] (sampleDistribution 130)]

/-- The group after some steps and a message of the first member. -/
def sampleWorld (steps : List (GroupStep symbolic)) : GroupWorld symbolic :=
  sampleChat.machine.exec sampleChat.machine.init (steps ++ [.encryptForGroup 1 [8]])

theorem sender_keys_usable_sample : sampleChat.Usable 1 2 (sampleWorld fetching) ∧
    ∃ x ∈ (sampleWorld fetching).messages, x.senderId = 1 ∧ 2 ∈ x.due := by
  refine ⟨sender_keys_usable symbolic_dhCommutes symbolic_signatureVerifies symbolic_aeadInverts
    sampleChat 1 2 (Machine.reachable_iff.mpr ⟨_, ?_, rfl⟩), ?_⟩ <;> decide +kernel

/-- The second member has fetched after the answer, and cannot read the next message. -/
theorem answer_silences : ∃ w, sampleChat.machine.Reachable w ∧ ¬sampleChat.Usable 1 2 w :=
  ⟨sampleWorld (fetching ++ answering), Machine.reachable_iff.mpr ⟨_, by decide +kernel, rfl⟩,
    by decide +kernel⟩

end Vesper.Client
