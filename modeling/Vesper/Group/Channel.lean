import Vesper.Lib.Machine
import Vesper.Group.Receiver
import Vesper.Crypto.Symbolic

/-!
# A sender and one receiver

A group member that encrypts, and another that is handed a snapshot of its sender key at some point
and is given any messages from then on: genuine ones in any order, and whatever else the network
makes up. With an ideal signature every genuine message opens once, and nothing else moves the
receiver.
-/

namespace Vesper.SenderKey
open DoubleRatchet (chainKey messageKey)

/-- What `SenderState::generate` starts from. -/
structure Seed (P : Primitives) where
  keyId : UInt32
  chainKey : P.Block
  signingKey : P.SigningKey

variable {P : Primitives}

def Seed.sender (G : Seed P) : SenderState P :=
  { keyId := G.keyId, iteration := 0, chainKey := G.chainKey, signingKey := G.signingKey }

theorem generate_eq (keyId : UInt32) (ck : Vector UInt8 32) (signingKey : P.SigningKey) :
    SenderState.generate keyId ck signingKey = (Seed.mk keyId (P.block ck) signingKey).sender := rfl

/-- Both states and their history: the messages that `encrypt` returned, each with its plaintext;
the iteration of the snapshot that the receiver was made from; the messages it decrypted. -/
structure Channel (P : Primitives) where
  sender : SenderState P
  sent : List (SenderKeyMessage P × Bytes)
  receiver : Option (ReceiverState P)
  joined : UInt32
  accepted : List (SenderKeyMessage P)

inductive GroupEvent (P : Primitives) where
  | encrypt (plaintext : Bytes)
  | join
  | deliver (msg : SenderKeyMessage P)

namespace Channel

/-- The sender calls `encrypt`. -/
def encrypt (c : Channel P) (plaintext : Bytes) : Channel P :=
  let (sender, result) := SenderKey.encrypt c.sender plaintext
  { c with
    sender
    sent := c.sent ++
      match result with
      | .ok msg => [(msg, plaintext)]
      | .error _ => [] }

/-- The receiver is made from a snapshot of the sender. -/
def join (c : Channel P) : Channel P :=
  { c with
    receiver := some (processDistributionMessage (createDistributionMessage c.sender))
    joined := c.sender.iteration }

/-- The receiver calls `decrypt`. -/
def deliver (c : Channel P) (msg : SenderKeyMessage P) : Channel P :=
  match c.receiver with
  | none => c
  | some receiver =>
    let (receiver, result) := decrypt receiver msg
    { c with
      receiver := some receiver
      accepted := c.accepted ++
        match result with
        | .ok _ => [msg]
        | .error _ => [] }

def next (c : Channel P) : GroupEvent P → Channel P
  | .encrypt plaintext => c.encrypt plaintext
  | .join => c.join
  | .deliver msg => c.deliver msg

end Channel

/-- There is one receiver. -/
def Seed.channel (G : Seed P) : Machine (Channel P) (GroupEvent P) where
  init := { sender := G.sender, sent := [], receiver := none, joined := 0, accepted := [] }
  enabled c
    | .join => c.receiver.isNone
    | _ => True
  next := Channel.next

/-- What the signature of a message covers. -/
def SenderKeyMessage.payload (msg : SenderKeyMessage P) : Bytes × Option P.Cipher :=
  signedPayload msg.keyId msg.iteration msg.ciphertext

/-- The sender signed what the message says. -/
def Channel.Signed (c : Channel P) (msg : SenderKeyMessage P) : Prop :=
  ∃ m ∈ c.sent, m.1.payload = msg.payload

/-- The receiver has decrypted what the message says. -/
def Channel.Consumed (c : Channel P) (msg : SenderKeyMessage P) : Prop :=
  ∃ m ∈ c.accepted, m.payload = msg.payload

/-- An ideal signature: only what the sender signed verifies. -/
def Channel.IdealSignature (c : Channel P) (msg : SenderKeyMessage P) : Prop :=
  ∀ receiver, c.receiver = some receiver →
    receiver.signingPub.verify P msg.payload msg.signature = .ok () → c.Signed msg

/-- The steps under an ideal signature, with iterations below `2 ^ 32 - 1`. -/
def Ideal (c : Channel P) : GroupEvent P → Prop
  | .encrypt _ => c.sender.iteration.toNat < 2 ^ 32 - 1
  | .join => True
  | .deliver msg => c.IdealSignature msg

theorem payload_inj {m m' : SenderKeyMessage P} :
    m.payload = m'.payload ↔
      m.keyId = m'.keyId ∧ m.iteration = m'.iteration ∧ m.ciphertext = m'.ciphertext := by
  constructor
  · intro h
    obtain ⟨hhead, hc⟩ := Prod.mk.inj h
    obtain ⟨hkey, hit⟩ := List.append_inj hhead (by simp)
    exact ⟨be32_inj.mp hkey, be32_inj.mp hit, Option.some.inj hc⟩
  · rintro ⟨hkey, hit, hc⟩
    rw [SenderKeyMessage.payload, SenderKeyMessage.payload, hkey, hit, hc]

/-! ## `encrypt` and `decrypt` -/

theorem encrypt_fst (s : SenderState P) (plaintext : Bytes) :
    (encrypt s plaintext).1 =
      { s with chainKey := chainKey s.chainKey 1, iteration := s.iteration + 1 } := by
  simp only [encrypt, SenderState.nextMessageKey]
  split <;> rfl

/-- What `encrypt` returns for the plaintext at the position of the sender. -/
structure IsMessage (s : SenderState P) (plaintext : Bytes) (msg : SenderKeyMessage P) :
    Prop where
  keyId : msg.keyId = s.keyId
  iteration : msg.iteration = s.iteration
  sealed : aeadEncrypt P (messageKey s.chainKey 0) (iterationNonce msg.iteration) plaintext
    (messageAad msg.keyId msg.iteration) = .ok msg.ciphertext
  signature : msg.signature = P.sign s.signingKey msg.payload

theorem encrypt_ok {s : SenderState P} {plaintext : Bytes} {msg : SenderKeyMessage P}
    (h : (encrypt s plaintext).2 = .ok msg) : IsMessage s plaintext msg := by
  simp only [encrypt, SenderState.nextMessageKey] at h
  split at h
  · cases h
  · next ciphertext hseal =>
    obtain rfl := Except.ok.inj h
    exact ⟨rfl, rfl, hseal, rfl⟩

variable {s : ReceiverState P} {msg : SenderKeyMessage P}

/-- A message that does not verify leaves the receiver alone. -/
theorem decrypt_unverified {e : Fault}
    (h : s.signingPub.verify P msg.payload msg.signature = .error e) :
    decrypt s msg = (s, .error e) := by
  rw [SenderKeyMessage.payload] at h
  simp only [decrypt, h]

theorem decrypt_verified (h : s.signingPub.verify P msg.payload msg.signature = .ok ()) :
    decrypt s msg = ((s.messageKeyFor msg.iteration).1,
      (s.messageKeyFor msg.iteration).2.bind fun mk =>
        aeadDecrypt P mk (iterationNonce msg.iteration) msg.ciphertext
          (messageAad msg.keyId msg.iteration)) := by
  rw [SenderKeyMessage.payload] at h
  simp only [decrypt, h]
  rcases s.messageKeyFor msg.iteration with ⟨s', e | mk⟩ <;> rfl

/-! ## The two in step -/

/-- A sender and a receiver on the chain of `G`, the receiver at the messages it decrypted. -/
structure InStep (G : Seed P) (c : Channel P) : Prop where
  sender : c.sender = { G.sender with
    iteration := c.sender.iteration
    chainKey := chainKey G.chainKey c.sender.iteration.toNat }
  sent : ∀ m ∈ c.sent, m.1.iteration.toNat < c.sender.iteration.toNat ∧
    IsMessage { G.sender with
      iteration := m.1.iteration
      chainKey := chainKey G.chainKey m.1.iteration.toNat } m.2 m.1
  distinct : ∀ m ∈ c.sent, ∀ m' ∈ c.sent, m.1.iteration = m'.1.iteration → m = m'
  receiver : ∀ r, c.receiver = some r → r.signingPub = P.verifyingKey G.signingKey ∧
    Stands G.chainKey c.joined.toNat (c.accepted.map SenderKeyMessage.iteration) r
  accepted : ∀ m ∈ c.accepted, c.Signed m
  fresh : c.receiver = none → c.accepted = []

variable {G : Seed P} {c : Channel P}

theorem Seed.inStep (G : Seed P) : InStep G G.channel.init := by
  refine ⟨rfl, ?_, ?_, ?_, ?_, fun _ => rfl⟩ <;> simp [Seed.channel]

theorem InStep.encrypt (h : InStep G c) (plaintext : Bytes)
    (hlt : c.sender.iteration.toNat < 2 ^ 32 - 1) : InStep G (c.encrypt plaintext) := by
  have hit : (c.sender.iteration + 1).toNat = c.sender.iteration.toNat + 1 := by
    rw [UInt32.toNat_add]
    exact Nat.mod_eq_of_lt (by simp; omega)
  have hsender : (c.encrypt plaintext).sender =
      { c.sender with
        chainKey := chainKey c.sender.chainKey 1
        iteration := c.sender.iteration + 1 } := encrypt_fst ..
  have hiteration : (c.encrypt plaintext).sender.iteration = c.sender.iteration + 1 := by
    rw [hsender]
  -- the messages sent are those sent before, and possibly one of this iteration
  have hsent : ∀ m ∈ (c.encrypt plaintext).sent, m ∈ c.sent ∨
      m.1.iteration = c.sender.iteration ∧ m.2 = plaintext ∧ IsMessage c.sender plaintext m.1 ∧
        (SenderKey.encrypt c.sender plaintext).2 = .ok m.1 := by
    intro m hm
    rcases List.mem_append.mp hm with hm | hm
    · exact .inl hm
    · split at hm
      · next msg henc =>
        have henc : (SenderKey.encrypt c.sender plaintext).2 = .ok msg := henc
        rw [List.mem_singleton.mp hm]
        exact .inr ⟨(encrypt_ok henc).iteration, rfl, encrypt_ok henc, henc⟩
      · cases hm
  constructor
  · rw [hsender, h.sender]
    simp only [hit, chainKey]
  · intro m hm
    rw [hiteration, hit]
    rcases hsent m hm with hm | ⟨hlast, rfl, hmsg, -⟩
    · exact ⟨Nat.lt_succ_of_lt (h.sent m hm).1, (h.sent m hm).2⟩
    · rw [h.sender] at hmsg
      rw [hlast]
      exact ⟨Nat.lt_succ_self _, hmsg⟩
  · intro m hm m' hm' heq
    rcases hsent m hm with hm | ⟨hm, hp, -, henc⟩ <;>
      rcases hsent m' hm' with hm' | ⟨hm', hp', -, henc'⟩
    · exact h.distinct m hm m' hm' heq
    · have hlt := (h.sent m hm).1
      rw [heq, hm'] at hlt
      exact absurd hlt (Nat.lt_irrefl _)
    · have hlt := (h.sent m' hm').1
      rw [← heq, hm] at hlt
      exact absurd hlt (Nat.lt_irrefl _)
    · rw [henc] at henc'
      exact Prod.ext (Except.ok.inj henc') (hp.trans hp'.symm)
  · exact h.receiver
  · intro m hm
    obtain ⟨m', hm', hp⟩ := h.accepted m hm
    exact ⟨m', List.mem_append_left _ hm', hp⟩
  · exact h.fresh

theorem InStep.join (h : InStep G c) (hnone : c.receiver = none) : InStep G c.join := by
  refine ⟨h.sender, h.sent, h.distinct, ?_, h.accepted, nofun⟩
  rintro r hr
  obtain rfl := Option.some.inj hr
  have hchain := congrArg SenderState.chainKey h.sender
  have hkey := congrArg SenderState.signingKey h.sender
  refine ⟨congrArg P.verifyingKey hkey, ?_⟩
  have haccepted : c.join.accepted = [] := h.fresh hnone
  rw [haccepted]
  exact Stands.of_distribution hchain

/-! ## What the receiver does -/

variable {r : ReceiverState P}

/-- Below the joining point, or decrypted already. -/
theorem InStep.stale (h : InStep G c) (hr : c.receiver = some r)
    (hstale : msg.iteration < c.joined ∨ c.Consumed msg) :
    ∃ e, decrypt r msg = (r, .error e) := by
  cases hv : r.signingPub.verify P msg.payload msg.signature with
  | error e => exact ⟨e, decrypt_unverified hv⟩
  | ok =>
    have hgone := (h.receiver r hr).2.gone (t := msg.iteration) ?_
    · exact ⟨_, by rw [decrypt_verified hv, hgone]; rfl⟩
    · rcases hstale with hlt | ⟨m, hm, hp⟩
      · exact .inr (UInt32.lt_iff_toNat_lt.mp hlt)
      · exact .inl ((payload_inj.mp hp).2.1 ▸ List.mem_map_of_mem hm)

/-- A message that the sender signed. -/
theorem InStep.genuine (h : InStep G c) (haead : AeadInverts P) (hr : c.receiver = some r)
    (hv : r.signingPub.verify P msg.payload msg.signature = .ok ())
    {m : SenderKeyMessage P × Bytes} (hm : m ∈ c.sent) (hp : m.1.payload = msg.payload)
    (hlt : c.sender.iteration.toNat ≤ 2 ^ 32 - 1)
    (hjoined : c.joined ≤ msg.iteration) (hnew : ¬ c.Consumed msg)
    (hgap : msg.iteration.toNat ≤ r.iteration.toNat + MAX_SKIP.toNat) :
    ∃ r', decrypt r msg = (r', .ok m.2) ∧ r'.signingPub = r.signingPub ∧
      Stands G.chainKey c.joined.toNat
        ((c.accepted ++ [msg]).map SenderKeyMessage.iteration) r' := by
  obtain ⟨hkey, hit, hcipher⟩ := payload_inj.mp hp
  obtain ⟨hbelow, hmsg⟩ := h.sent m hm
  have hstands := (h.receiver r hr).2
  have hused : msg.iteration ∉ c.accepted.map SenderKeyMessage.iteration := by
    intro hmem
    obtain ⟨a, ha, hait⟩ := List.mem_map.mp hmem
    obtain ⟨m', hm', hp'⟩ := h.accepted a ha
    -- two messages of one iteration are the same
    obtain rfl := h.distinct m hm m' hm' (by rw [hit, (payload_inj.mp hp').2.1, hait])
    exact hnew ⟨a, ha, hp'.symm.trans hp⟩
  have hlast : msg.iteration.toNat + 1 < 2 ^ 32 := by
    rw [← hit]
    omega
  obtain ⟨r', hmk, hstands', -⟩ :=
    hstands.messageKeyFor (UInt32.le_iff_toNat_le.mp hjoined) hused hgap hlast
  have hframe := (messageKeyFor_frame r msg.iteration).1
  rw [hmk] at hframe
  refine ⟨r', ?_, hframe, ?_⟩
  · rw [decrypt_verified hv, hmk]
    have hopen := haead _ _ _ _ _ hmsg.sealed
    rw [hit, hkey, hcipher] at hopen
    exact congrArg (Prod.mk r') hopen
  · rw [List.map_append]
    exact hstands'

/-- Beyond the skip limit. -/
theorem InStep.beyond (h : InStep G c) (hr : c.receiver = some r)
    (hgap : r.iteration.toNat + MAX_SKIP.toNat < msg.iteration.toNat) :
    ∃ e, decrypt r msg = (r, .error e) := by
  cases hv : r.signingPub.verify P msg.payload msg.signature with
  | error e => exact ⟨e, decrypt_unverified hv⟩
  | ok =>
    have hmiss : r.skipped[msg.iteration]? = none := by
      rw [(h.receiver r hr).2.skipped, if_neg (by omega)]
    exact ⟨_, by rw [decrypt_verified hv, messageKeyFor_limit hmiss hgap]; rfl⟩

theorem deliver_rejected {e : Fault} (hr : c.receiver = some r)
    (h : decrypt r msg = (r, .error e)) : c.deliver msg = c := by
  simp only [Channel.deliver, hr, h, List.append_nil]
  rw [← hr]

theorem deliver_accepted {r' : ReceiverState P} {p : Bytes} (hr : c.receiver = some r)
    (h : decrypt r msg = (r', .ok p)) :
    c.deliver msg = { c with receiver := some r', accepted := c.accepted ++ [msg] } := by
  simp only [Channel.deliver, hr, h]

theorem InStep.deliver (h : InStep G c) (haead : AeadInverts P)
    (hlt : c.sender.iteration.toNat ≤ 2 ^ 32 - 1) (hideal : c.IdealSignature msg) :
    InStep G (c.deliver msg) := by
  cases hr : c.receiver with
  | none => simpa only [Channel.deliver, hr] using h
  | some r =>
    by_cases hstale : msg.iteration < c.joined ∨ c.Consumed msg
    · obtain ⟨e, he⟩ := h.stale hr hstale
      rwa [deliver_rejected hr he]
    obtain ⟨hjoined, hnew⟩ := not_or.mp hstale
    by_cases hgap : r.iteration.toNat + MAX_SKIP.toNat < msg.iteration.toNat
    · obtain ⟨e, he⟩ := h.beyond hr hgap
      rwa [deliver_rejected hr he]
    cases hv : r.signingPub.verify P msg.payload msg.signature with
    | error e => rwa [deliver_rejected hr (decrypt_unverified hv)]
    | ok =>
      obtain ⟨m, hm, hp⟩ := hideal r hr hv
      obtain ⟨r', hdec, hpub, hstands⟩ := h.genuine haead hr hv hm hp hlt
        (UInt32.not_lt.mp hjoined) hnew (Nat.not_lt.mp hgap)
      rw [deliver_accepted hr hdec]
      refine ⟨h.sender, h.sent, h.distinct, ?_, ?_, nofun⟩
      · rintro r'' hr''
        obtain rfl := Option.some.inj hr''
        exact ⟨hpub.trans (h.receiver r hr).1, hstands⟩
      · intro a ha
        rcases List.mem_append.mp ha with ha | ha
        · exact h.accepted a ha
        · rw [List.mem_singleton.mp ha]
          exact ⟨m, hm, hp⟩

theorem deliver_sender (c : Channel P) (msg : SenderKeyMessage P) :
    (c.deliver msg).sender = c.sender := by
  unfold Channel.deliver
  split <;> rfl

theorem inStep_of_reachable (haead : AeadInverts P)
    (hc : (G.channel.restrict Ideal).Reachable c) :
    InStep G c ∧ c.sender.iteration.toNat ≤ 2 ^ 32 - 1 := by
  refine Machine.Reachable.invariant (M := G.channel.restrict Ideal)
    (I := fun c => InStep G c ∧ c.sender.iteration.toNat ≤ 2 ^ 32 - 1)
    ⟨G.inStep, Nat.zero_le _⟩ ?_ hc
  rintro c e - ⟨h, hle⟩ ⟨henabled, hideal⟩
  cases e with
  | encrypt plaintext =>
    exact ⟨h.encrypt plaintext hideal, Nat.le_pred_of_lt (UInt32.toNat_lt _)⟩
  | join => exact ⟨h.join (Option.isNone_iff_eq_none.mp henabled), hle⟩
  | deliver msg => exact ⟨h.deliver haead hle hideal, deliver_sender c msg ▸ hle⟩

/-- **Group delivery**: whatever the network makes up, a genuine message opens once when it is not
too far ahead, and what is stale or not signed by the sender is rejected and changes nothing. -/
theorem decrypt_group (hsig : SignatureVerifies P) (haead : AeadInverts P)
    (hc : (G.channel.restrict Ideal).Reachable c) (hr : c.receiver = some r)
    (hideal : c.IdealSignature msg) :
    (∀ p, (msg, p) ∈ c.sent → c.joined ≤ msg.iteration → ¬ c.Consumed msg →
      msg.iteration.toNat ≤ r.iteration.toNat + MAX_SKIP.toNat → (decrypt r msg).2 = .ok p) ∧
    (msg.iteration < c.joined ∨ c.Consumed msg → ∃ e, decrypt r msg = (r, .error e)) ∧
    (¬ c.Signed msg → ∃ e, decrypt r msg = (r, .error e)) := by
  obtain ⟨h, hlt⟩ := inStep_of_reachable haead hc
  refine ⟨fun p hm hjoined hnew hgap => ?_, h.stale hr, fun hforged => ?_⟩
  · have hv : r.signingPub.verify P msg.payload msg.signature = .ok () := by
      rw [(h.receiver r hr).1, (h.sent _ hm).2.signature]
      exact hsig ..
    obtain ⟨r', hdec, -⟩ := h.genuine haead hr hv hm rfl hlt hjoined hnew hgap
    rw [hdec]
  · cases hv : r.signingPub.verify P msg.payload msg.signature with
    | error e => exact ⟨e, decrypt_unverified hv⟩
    | ok => exact absurd (hideal r hr hv) hforged

def sampleSeed : Seed symbolic := ⟨1, .atom 0, ⟨.replicate 32 9⟩⟩

/-- The receiver joins between the first message and the second. -/
def sampleEvents : List (GroupEvent symbolic) := [.encrypt [7], .join, .encrypt [8]]

def sampleChannel : Channel symbolic := sampleSeed.channel.exec sampleSeed.channel.init sampleEvents

def sampleReceiver : ReceiverState symbolic :=
  processDistributionMessage (createDistributionMessage (encrypt sampleSeed.sender [7]).1)

/-- The second message. -/
def sampleMessage : SenderKeyMessage symbolic :=
  let ciphertext := .box (messageKey sampleSeed.chainKey 1) (iterationNonce 1) [8] (messageAad 1 1)
  { keyId := 1, iteration := 1, ciphertext,
    signature := symbolic.sign sampleSeed.signingKey (signedPayload 1 1 ciphertext) }

theorem sampleMessage_mem : (sampleMessage, [8]) ∈ sampleChannel.sent := .tail _ (.head _)

theorem sampleChannel_reachable : (sampleSeed.channel.restrict Ideal).Reachable sampleChannel :=
  have h0 : (0 : UInt32).toNat < 2 ^ 32 - 1 := by decide
  have h1 : (1 : UInt32).toNat < 2 ^ 32 - 1 := by decide
  have hall : (sampleSeed.channel.restrict Ideal).Allowed sampleSeed.channel.init sampleEvents :=
    ⟨⟨trivial, h0⟩, ⟨rfl, trivial⟩, ⟨trivial, h1⟩, trivial⟩
  Machine.Reachable.init.exec hall

theorem decrypt_group_sample : (decrypt sampleReceiver sampleMessage).2 = .ok [8] :=
  (decrypt_group (c := sampleChannel) symbolic_signatureVerifies symbolic_aeadInverts
    sampleChannel_reachable rfl
    fun _ _ _ => ⟨_, sampleMessage_mem, rfl⟩).1 [8] sampleMessage_mem (by decide)
      (by rintro ⟨m, hm, -⟩; cases hm) (by decide)

end Vesper.SenderKey
