import Mathlib.Data.List.Forall2
import Vesper.Client.Calls
import Vesper.Ratchet.KeyRing

/-!
# The sending chains of a client

A stored session or sender state stands on a sending chain in front of the first key it has not
used. `Effect` says what a call does to the chain it finds; a `Book` logs the keys used, for any
number of copies of a stored value.
-/

namespace Vesper.Client
open DoubleRatchet X3dh
open SenderKey (SenderState)
open Symbolic (Term Sealed)

/-! ## Where a stored value stands -/

/-- A sending chain by the key that its owner shows: the ratchet key of a session's headers, the
signing key of a sender state. -/
inductive ChainId where
  | ratchet (dh : KeyAgreementPublicKey)
  | sender (key : IdentityPublicKey)
  deriving DecidableEq

section
variable {P : Primitives}

variable (P) in
/-- The chain on which a value sends next, the key of the chain, and the counter for the nonce. -/
structure Head where
  chain : ChainId
  key : P.Block
  counter : UInt32

def sessionHead (s : RatchetState P) : Option (Head P) :=
  s.cks.map fun ck => ⟨.ratchet (P.publicKey s.dhs), ck, s.ns⟩

def senderHead (s : SenderState P) : Head P :=
  ⟨.sender (P.verifyingKey s.signingKey), s.chainKey, s.iteration⟩

def Content.head : Content P → Option (Head P)
  | .session s => sessionHead s
  | .sender s => some (senderHead s)
  | .bytes _ | .object _ => none

/-- The ratchet keys of others that a call reads. -/
def Request.met (a : Answers P) : Request P → List KeyAgreementPublicKey
  | .drEncrypt .. | .drDeviceEncrypt .. => (a.peerBundle.toOption.map X3dhBundle.spk).toList
  | .drDecrypt _ _ wire | .drDeviceDecrypt _ _ wire =>
    (wire.dr.map fun message => message.1.dh).toList
  | _ => []

/-- What a call encrypts, if it encrypts. -/
def Request.plaintext : Request P → Option Bytes
  | .drEncrypt _ _ plaintext | .drDeviceEncrypt _ _ plaintext => some plaintext
  | .encryptForGroup _ content => some content
  | .encryptBinaryForGroup _ data _ => some data
  | .drDecrypt .. | .drDeviceDecrypt .. | .distributeMySenderKey _ => none

/-- The chains that the random values of a call start, given the ratchet keys it reads. -/
inductive Answers.Starts (a : Answers P) (met : List KeyAgreementPublicKey) : Head P → Prop
  | ratchet : d ∈ met →
    a.Starts met ⟨.ratchet (P.publicKey a.fresh), ckSeed rk (P.diffieHellman a.fresh d), 0⟩
  | sender : a.Starts met ⟨.sender (P.verifyingKey a.signingKey), P.block a.chainKey, 0⟩

end

/-- Behind the next key of the chain. -/
def Head.next (h : Head symbolic) : Head symbolic := ⟨h.chain, chainKey h.key 1, h.counter + 1⟩

@[simp] theorem Head.next_chain (h : Head symbolic) : h.next.chain = h.chain := rfl

/-- What is sealed with the next key of the chain. -/
def Head.seal (h : Head symbolic) (p aad : Bytes) : symbolic.Cipher :=
  .box (messageKey h.key 0) (messageNonce h.counter) p aad

/-! ## What a call does to the chain it finds -/

/-- `base` is the chain found, one that the call starts, or none. -/
def Base (a : Answers symbolic) (met : List KeyAgreementPublicKey)
    (stored base : Option (Head symbolic)) : Prop :=
  base = stored ∨ base = none ∨ ∃ h, a.Starts met h ∧ base = some h

/-- From the chain `base` on: nothing is saved, or a value standing there is saved, or one key is
used, for the plaintext of the call. -/
inductive Moves (plaintext : Option Bytes) (base : Option (Head symbolic)) : Outcome symbolic → Prop
  | idle : Moves plaintext base ⟨none, none⟩
  | rest {v : Content symbolic} : v.head = base → Moves plaintext base ⟨some v, none⟩
  | draw {v : Content symbolic} {h : Head symbolic} {p aad : Bytes} :
    base = some h → plaintext = some p → v.head = some h.next →
    Moves plaintext base ⟨some v, some (h.seal p aad)⟩

def Effect (a : Answers symbolic) (met : List KeyAgreementPublicKey) (plaintext : Option Bytes)
    (stored : Option (Content symbolic)) (o : Outcome symbolic) : Prop :=
  ∃ base, Base a met (stored.bind Content.head) base ∧ Moves plaintext base o

variable {a : Answers symbolic} {met : List KeyAgreementPublicKey} {plain : Option Bytes}
  {stored : Option (Content symbolic)} {o : Outcome symbolic}

theorem loadedSession_ok {session : Option (RatchetState symbolic)}
    (h : loadedSession stored = .ok session) : stored = session.map .session := by
  rcases stored with _ | _ | _ | _ | _ <;> cases h <;> rfl

theorem loadedSender_ok {sender : Option (SenderState symbolic)}
    (h : loadedSender stored = .ok sender) : stored = sender.map .sender := by
  rcases stored with _ | _ | _ | _ | _ <;> cases h <;> rfl

/-- `encrypt` draws the next key of the session's chain. -/
theorem moves_encrypt {s s' : RatchetState symbolic} {plaintext : Bytes}
    {message : MessageHeader × symbolic.Cipher} (h : encrypt s plaintext [] = (s', .ok message)) :
    Moves (some plaintext) (sessionHead s) ⟨some (.session s'), some message.2⟩ := by
  cases hcks : s.cks with
  | none => simp [encrypt, hcks] at h
  | some ck =>
    simp only [encrypt, hcks, aeadEncrypt, Except.map, Prod.mk.injEq, Except.ok.injEq] at h
    obtain ⟨rfl, rfl⟩ := h
    have hhead : sessionHead s = some ⟨.ratchet (symbolic.publicKey s.dhs), ck, s.ns⟩ := by
      rw [sessionHead, hcks]
      rfl
    exact .draw hhead rfl rfl

theorem moves_groupSenderEncrypt {s : SenderState symbolic} {plaintext : Bytes}
    (h : groupSenderEncrypt s plaintext = .ok o) : Moves (some plaintext) (some (senderHead s)) o := by
  simp only [groupSenderEncrypt, SenderKey.encrypt, SenderState.nextMessageKey, SenderKey.advance,
    aeadEncrypt, Except.ok.injEq] at h
  subst h
  exact .draw rfl rfl rfl

theorem starts_initSender {sk : symbolic.Block} {d : KeyAgreementPublicKey}
    {s : RatchetState symbolic} (hd : d ∈ met) (h : initSender symbolic sk d a.fresh = .ok s) :
    ∃ head, a.Starts met head ∧ sessionHead s = some head := by
  rw [initSender_eq] at h
  cases h
  exact ⟨_, .ratchet hd, rfl⟩

/-- A decryption keeps the chain of the session it runs on or starts one. -/
theorem base_ratchetDecrypt {s s' : RatchetState symbolic}
    {dr : Option (MessageHeader × symbolic.Cipher)} {p : Bytes}
    (hmet : ∀ message, dr = some message → message.1.dh ∈ met)
    (h : ratchetDecrypt s dr a.fresh = .ok (s', p)) :
    Base a met (sessionHead s) (sessionHead s') := by
  obtain ⟨header, c, hdr, hdec⟩ := ratchetDecrypt_ok_iff.mp h
  rw [decrypt_eq] at hdec
  have hs : (advance s header a.fresh).1 = s' := congrArg Prod.fst hdec
  rcases advance_sends s header a.fresh with ⟨hdhs, hcks, hns⟩ | ⟨rk, hdhs, hcks, hns⟩ <;>
    rw [hs] at hdhs hcks hns
  · exact .inl (by rw [sessionHead, sessionHead, hdhs, hcks, hns])
  · exact .inr (.inr ⟨_, .ratchet (hmet _ hdr), by rw [sessionHead, hdhs, hcks, hns]; rfl⟩)

theorem Effect.encryptSection
    {run : Option (RatchetState symbolic) → Except Thrown (RatchetState symbolic × Wire symbolic)}
    (hrun : ∀ session s' wire, run session = .ok (s', wire) →
      ∃ base, Base a met (session.bind sessionHead) base ∧
        Moves plain base ⟨some (.session s'), wire.dr.map Prod.snd⟩)
    (h : encryptSection run stored = .ok o) : Effect a met plain stored o := by
  simp only [Client.encryptSection, bind_eq_ok, pure_eq_ok] at h
  obtain ⟨session, hload, ⟨s', wire⟩, hok, rfl⟩ := h
  obtain ⟨base, hbase, hmoves⟩ := hrun session s' wire hok
  refine ⟨base, ?_, hmoves⟩
  rw [loadedSession_ok hload]
  cases session <;> exact hbase

theorem effect_sessionEncrypt {ikDh : KeyName}
    {peerBundle : Except Thrown (X3dhBundle symbolic)} {plaintext : Bytes} {ek : KeyName}
    {session : Option (RatchetState symbolic)} {s' : RatchetState symbolic} {wire : Wire symbolic}
    (hmet : ∀ bundle, peerBundle = .ok bundle → bundle.spk ∈ met)
    (h : sessionEncrypt ikDh peerBundle session plaintext ek a.fresh = .ok (s', wire)) :
    ∃ base, Base a met (session.bind sessionHead) base ∧
      Moves (some plaintext) base ⟨some (.session s'), wire.dr.map Prod.snd⟩ := by
  cases session with
  | some s =>
    obtain ⟨message, henc, rfl⟩ := sessionEncrypt_some.mp h
    exact ⟨_, .inl rfl, moves_encrypt henc⟩
  | none =>
    cases peerBundle with
    | error e => cases h
    | ok bundle =>
      obtain ⟨s, initMsg, message, hinit, henc, rfl⟩ := sessionEncrypt_none.mp h
      obtain ⟨out, -, hsender, -⟩ := initiate_ok_iff.mp hinit
      obtain ⟨head, hstart, hhead⟩ := starts_initSender (hmet _ rfl) hsender
      exact ⟨some head, .inr (.inr ⟨head, hstart, rfl⟩), hhead ▸ moves_encrypt henc⟩

theorem Effect.decryptSection {ikDh spk : KeyName} {wire : Wire symbolic}
    (hmet : ∀ message, wire.dr = some message → message.1.dh ∈ met)
    (h : decryptSection (fun session => sessionDecrypt ikDh spk session wire a.fresh) stored =
      .ok o) : Effect a met plain stored o := by
  simp only [Client.decryptSection, bind_eq_ok, pure_eq_ok] at h
  obtain ⟨session, hload, result, hok, rfl⟩ := h
  rw [loadedSession_ok hload]
  cases result with
  | none => exact ⟨_, .inl rfl, .idle⟩
  | some result =>
    obtain ⟨s', p⟩ := result
    rcases sessionDecrypt_some.mp hok with ⟨s, rfl, hdec⟩ | ⟨initMsg, -, -, hresp⟩
    · exact ⟨_, base_ratchetDecrypt hmet hdec, .rest rfl⟩
    · obtain ⟨sk, header, c, -, hdr, hdec⟩ := respond_ok_iff.mp hresp
      have hdec := ratchetDecrypt_ok_iff.mpr ⟨header, c, hdr, hdec⟩
      -- the receiver's session has no sending chain yet
      have hbase : sessionHead s' = none ∨ ∃ h, a.Starts met h ∧ sessionHead s' = some h :=
        (base_ratchetDecrypt hmet hdec).elim .inl id
      exact ⟨_, .inr hbase, .rest rfl⟩

theorem Effect.doDistribute : Effect a met plain stored (doDistribute a) :=
  ⟨_, .inr (.inr ⟨_, .sender, rfl⟩), .rest rfl⟩

theorem Effect.groupSection {content : Bytes} (h : groupSection content stored = .ok o) :
    Effect a met (some content) stored o := by
  simp only [Client.groupSection, bind_eq_ok] at h
  obtain ⟨sender, hload, hok⟩ := h
  rw [loadedSender_ok hload]
  cases sender with
  | some s => exact ⟨_, .inl rfl, moves_groupSenderEncrypt hok⟩
  | none =>
    cases hok
    exact ⟨_, .inl rfl, .idle⟩

theorem Effect.groupBinarySection {data : Bytes} {memberIds : List Nat}
    (h : groupBinarySection data memberIds a stored = .ok o) :
    Effect a met (some data) stored o := by
  simp only [Client.groupBinarySection, bind_eq_ok] at h
  obtain ⟨sender, hload, hok⟩ := h
  rw [loadedSender_ok hload]
  cases sender with
  | some s => exact ⟨_, .inl rfl, moves_groupSenderEncrypt hok⟩
  | none =>
    dsimp only at hok
    split at hok
    · cases hok
      exact ⟨_, .inl rfl, .idle⟩
    split at hok
    · split at hok
      · next henc =>
        cases hok
        exact ⟨_, .inr (.inr ⟨_, .sender, rfl⟩), moves_groupSenderEncrypt henc⟩
      · cases hok
        exact Effect.doDistribute
    · cases hok
      exact Effect.doDistribute

/-- **One key at most**: a call leaves the chain it found or one it starts, and hands out nothing,
or a ciphertext under the next key of that chain. -/
theorem Request.effect {r : Request symbolic} (h : r.run a stored = .ok o) :
    Effect a (r.met a) r.plaintext stored o := by
  cases r with
  | drEncrypt myId peerId plaintext =>
    refine Effect.encryptSection (fun session s' wire hok => effect_sessionEncrypt ?_ hok) h
    intro bundle hb
    simp [Request.met, hb, Except.toOption]
  | drDecrypt myId senderId wire =>
    exact Effect.decryptSection (fun message hm => by simp [Request.met, hm]) h
  | drDeviceEncrypt senderDeviceId recipientDeviceId plaintext =>
    refine Effect.encryptSection (fun session s' wire hok => effect_sessionEncrypt ?_ hok) h
    intro bundle hb
    cases ho : a.peerBundle.toOption with
    | none => simp [ho, deviceBundle] at hb
    | some bundle' =>
      simp only [ho, deviceBundle, Except.ok.injEq] at hb
      simp [Request.met, ho, hb]
  | drDeviceDecrypt senderDeviceId recipientDeviceId wire =>
    exact Effect.decryptSection (fun message hm => by simp [Request.met, hm]) h
  | encryptForGroup conversationId content => exact Effect.groupSection h
  | encryptBinaryForGroup conversationId data memberIds => exact Effect.groupBinarySection h
  | distributeMySenderKey conversationId =>
    cases h
    exact Effect.doDistribute

/-! ## Chains started -/

/-- The random values drawn so far, with the ratchet keys of others met on the way. -/
structure Minted where
  names : List KeyAgreementPublicKey
  chainKeys : List (Vector UInt8 32)
  signers : List IdentityPublicKey

/-- The random values of a call are new. -/
def Minted.Fresh (m : Minted) (a : Answers symbolic) : Prop :=
  a.fresh.name ∉ m.names ∧ a.chainKey ∉ m.chainKeys ∧ a.signingKey ∉ m.signers

instance (m : Minted) (a : Answers symbolic) : Decidable (m.Fresh a) :=
  inferInstanceAs (Decidable (_ ∧ _ ∧ _))

def Minted.add (m : Minted) (r : Request symbolic) (a : Answers symbolic) : Minted where
  names := a.fresh.name :: (r.met a ++ m.names)
  chainKeys := a.chainKey :: m.chainKeys
  signers := a.signingKey :: m.signers

/-- A chain made of the values drawn, and its first key. -/
inductive Origin (m : Minted) : ChainId → symbolic.Block → Prop
  | ratchet {x d : KeyAgreementPublicKey} {rk : symbolic.Block} : x ∈ m.names → d ∈ m.names →
    Origin m (.ratchet x) (ckSeed (P := symbolic) rk (Term.shared x d))
  | sender {k : IdentityPublicKey} {b : Vector UInt8 32} : k ∈ m.signers → b ∈ m.chainKeys →
    Origin m (.sender k) (.bytes b.toList)

variable {m : Minted} {r : Request symbolic} {chain chain' : ChainId} {b b' : symbolic.Block}
  {h : Head symbolic} {n n' : Nat}

theorem Origin.root (h : Origin m chain b) : Root b := by
  cases h <;> exact fun _ _ => nofun

theorem Origin.add (h : Origin m chain b) : Origin (m.add r a) chain b := by
  cases h with
  | ratchet hx hd => exact .ratchet (by simp [Minted.add, hx]) (by simp [Minted.add, hd])
  | sender hk hb => exact .sender (by simp [Minted.add, hk]) (by simp [Minted.add, hb])

theorem Answers.Starts.origin (hs : a.Starts (r.met a) h) :
    Origin (m.add r a) h.chain h.key := by
  cases hs with
  | ratchet hd => exact .ratchet (by simp [Minted.add]) (by simp [Minted.add, hd])
  | sender => exact .sender (by simp [Minted.add]) (by simp [Minted.add])

/-- A chain started with new values has neither the name nor the first key of an earlier one. -/
theorem Answers.Starts.new (hs : a.Starts met h) (hf : m.Fresh a) (h' : Origin m chain' b') :
    h.chain ≠ chain' ∧ h.key ≠ b' := by
  obtain ⟨hfresh, hkey, hsigner⟩ := hf
  cases hs with
  | ratchet hd =>
    cases h' with
    | ratchet hx' hd' =>
      constructor
      · rintro ⟨rfl⟩
        exact hfresh hx'
      · intro heq
        have hikm := (Term.extract.inj (Term.expand.inj heq).1).2
        rcases Term.shared_eq_iff.mp (Term.cat.inj hikm).1 with ⟨hx, -⟩ | ⟨hx, -⟩
        · exact hfresh (hx ▸ hx')
        · exact hfresh (hx ▸ hd')
    | sender => exact ⟨nofun, nofun⟩
  | sender =>
    cases h' with
    | ratchet => exact ⟨nofun, nofun⟩
    | sender hk hb =>
      constructor
      · rintro ⟨rfl⟩
        exact hsigner hk
      · intro heq
        rw [Vector.toList_inj.mp (Term.bytes.inj heq)] at hkey
        exact hkey hb

/-! ## The books -/

section
variable {T : Type} {R R' : ChainId → Option (symbolic.Block × T)} {t : T}

/-- A register of the chains started: the first key of each, and to whom it belongs. -/
structure Registry (m : Minted) (R : ChainId → Option (symbolic.Block × T)) : Prop where
  origin : ∀ {chain b t}, R chain = some (b, t) → Origin m chain b
  inj : ∀ {chain b t chain' t'}, R chain = some (b, t) → R chain' = some (b, t') → chain = chain'

def Extends (R R' : ChainId → Option (symbolic.Block × T)) : Prop :=
  ∀ chain e, R chain = some e → R' chain = some e

theorem Registry.nil : Registry m (fun _ => (none : Option (symbolic.Block × T))) :=
  ⟨nofun, nofun⟩

theorem Registry.add (h : Registry m R) : Registry (m.add r a) R :=
  ⟨fun hc => (h.origin hc).add, h.inj⟩

theorem Registry.start {base : Head symbolic} (h : Registry m R) (hf : m.Fresh a)
    (hs : a.Starts (r.met a) base) (t : T) :
    R base.chain = none ∧
      Registry (m.add r a) (Function.update R base.chain (some (base.key, t))) := by
  have hnew : ∀ chain' b' t', R chain' = some (b', t') → base.chain ≠ chain' ∧ base.key ≠ b' :=
    fun _ _ _ hc => hs.new hf (h.origin hc)
  constructor
  · cases hc : R base.chain with
    | none => rfl
    | some e => exact absurd rfl (hnew base.chain e.1 e.2 hc).1
  constructor
  · intro chain' b' t' hc
    rw [Function.update_apply] at hc
    split at hc
    · next heq =>
      subst heq
      cases hc
      exact hs.origin
    · exact (h.origin hc).add
  · intro chain₁ b' t₁ chain₂ t₂ h₁ h₂
    rw [Function.update_apply] at h₁ h₂
    split at h₁ <;> split at h₂
    · next heq₁ heq₂ => rw [heq₁, heq₂]
    · cases h₁
      exact absurd rfl (hnew _ _ _ h₂).2
    · cases h₂
      exact absurd rfl (hnew _ _ _ h₁).2
    · exact h.inj h₁ h₂

theorem Extends.refl : Extends R R := fun _ _ => id

theorem extends_update (h : R chain = none) (e : symbolic.Block × T) :
    Extends R (Function.update R chain (some e)) := by
  intro chain' e' hc
  rw [Function.update_of_ne]
  · exact hc
  · rintro rfl
    rw [h] at hc
    cases hc

/-! ## Places on a chain -/

/-- The value stands in front of key number `n` of a chain of `t`. -/
def Head.At (R : ChainId → Option (symbolic.Block × T)) (t : T) (n : Nat) (h : Head symbolic) : Prop :=
  ∃ b, R h.chain = some (b, t) ∧ h.key = chainKey b n ∧ h.counter = .ofNat n

theorem Head.At.mono (hat : h.At R t n) (he : Extends R R') : h.At R' t n := by
  obtain ⟨b, hc, hkey, hcounter⟩ := hat
  exact ⟨b, he _ _ hc, hkey, hcounter⟩

theorem Head.At.next (hat : h.At R t n) : h.next.At R t (n + 1) := by
  obtain ⟨b, hc, hkey, hcounter⟩ := hat
  refine ⟨b, hc, ?_, ?_⟩
  · rw [Head.next, hkey, chainKey_chainKey]
  · rw [Head.next, hcounter]
    exact (UInt32.ofNat_add n 1).symm

/-- A chain that a call has just started. -/
theorem Answers.Starts.at (hs : a.Starts met h) (hc : R h.chain = some (h.key, t)) : h.At R t 0 := by
  refine ⟨h.key, hc, rfl, ?_⟩
  cases hs <;> rfl

/-! ## What was sealed -/

/-- A key of a chain, and what was sealed with it. -/
structure LogEntry where
  chain : ChainId
  n : Nat
  plaintext : Bytes

def LogEntry.Sealed (R : ChainId → Option (symbolic.Block × T)) (e : LogEntry) (ct : symbolic.Cipher) :
    Prop :=
  ∃ b t aad, R e.chain = some (b, t) ∧
    ct = .box (messageKey b e.n) (messageNonce (.ofNat e.n)) e.plaintext aad

/-- The log accounts for every ciphertext released. -/
def Book (R : ChainId → Option (symbolic.Block × T)) (log : List LogEntry)
    (released : List symbolic.Cipher) : Prop :=
  List.Forall₂ (LogEntry.Sealed R) log released

/-- The same key is not used for anything else. -/
def LogEntry.Agree (e e' : LogEntry) : Prop :=
  e.chain = e'.chain → e.n = e'.n → e.plaintext = e'.plaintext

/-- The same key is not used again. -/
def LogEntry.Apart (e e' : LogEntry) : Prop := e.chain = e'.chain → e.n ≠ e'.n

instance : Std.Symm LogEntry.Agree where
  symm _ _ h hchain hn := (h hchain.symm hn.symm).symm

/-- Two ciphertexts for different plaintexts under the same key and nonce. -/
def Reused : symbolic.Cipher → symbolic.Cipher → Prop
  | .box key nonce p _, .box key' nonce' p' _ => key = key' ∧ nonce = nonce' ∧ p ≠ p'
  | _, _ => False

instance : ∀ ct ct', Decidable (Reused ct ct')
  | .box .., .box .. => inferInstanceAs (Decidable (_ ∧ _ ∧ _))
  | .raw _, _ | .box .., .raw _ => .isFalse id

/-- Two ciphertexts under the same key and nonce. -/
def SharesKey : symbolic.Cipher → symbolic.Cipher → Prop
  | .box key nonce _ _, .box key' nonce' _ _ => key = key' ∧ nonce = nonce'
  | _, _ => False

instance : ∀ ct ct', Decidable (SharesKey ct ct')
  | .box .., .box .. => inferInstanceAs (Decidable (_ ∧ _))
  | .raw _, _ | .box .., .raw _ => .isFalse id

/-- No key and nonce serve two plaintexts. -/
def KeysUnique (released : List symbolic.Cipher) : Prop :=
  released.Pairwise fun ct ct' => ¬ Reused ct ct'

instance (released : List symbolic.Cipher) : Decidable (KeysUnique released) :=
  inferInstanceAs (Decidable (List.Pairwise _ _))

/-- No key and nonce serve twice. -/
def KeysOnce (released : List symbolic.Cipher) : Prop :=
  released.Pairwise fun ct ct' => ¬ SharesKey ct ct'

variable {e e' : LogEntry} {ct ct' : symbolic.Cipher} {log : List LogEntry}
  {released : List symbolic.Cipher}

theorem Head.At.seal {p aad : Bytes} (hat : h.At R t n) :
    LogEntry.Sealed R ⟨h.chain, n, p⟩ (h.seal p aad) := by
  obtain ⟨b, hc, hkey, hcounter⟩ := hat
  refine ⟨b, t, aad, hc, ?_⟩
  rw [Head.seal, hkey, hcounter, messageKey_chainKey, Nat.add_zero]

theorem LogEntry.Sealed.mono (h : e.Sealed R ct) (he : Extends R R') : e.Sealed R' ct := by
  obtain ⟨b, t, aad, hc, hct⟩ := h
  exact ⟨b, t, aad, he _ _ hc, hct⟩

/-- A message key tells its chain and its number. -/
theorem LogEntry.Sealed.sharesKey_iff (hR : Registry m R) (h : e.Sealed R ct) (h' : e'.Sealed R ct') :
    SharesKey ct ct' ↔ e.chain = e'.chain ∧ e.n = e'.n := by
  obtain ⟨b, t, aad, hc, rfl⟩ := h
  obtain ⟨b', t', aad', hc', rfl⟩ := h'
  constructor
  · rintro ⟨hkey, -⟩
    obtain ⟨hn, rfl⟩ := (hR.origin hc).root.messageKey_inj (hR.origin hc').root hkey
    exact ⟨hR.inj hc hc', hn⟩
  · rintro ⟨hchain, hn⟩
    rw [hchain, hc', Option.some.injEq, Prod.mk.injEq] at hc
    exact ⟨by rw [hc.1, hn], by rw [hn]⟩

theorem LogEntry.Sealed.not_reused_iff (hR : Registry m R) (h : e.Sealed R ct)
    (h' : e'.Sealed R ct') : ¬ Reused ct ct' ↔ e.Agree e' := by
  have hshares := h.sharesKey_iff hR h'
  obtain ⟨b, t, aad, hc, rfl⟩ := h
  obtain ⟨b', t', aad', hc', rfl⟩ := h'
  constructor
  · intro hnot hchain hn
    by_contra hne
    obtain ⟨hkey, hnonce⟩ := hshares.mpr ⟨hchain, hn⟩
    exact hnot ⟨hkey, hnonce, hne⟩
  · rintro hagree ⟨hkey, hnonce, hne⟩
    obtain ⟨hchain, hn⟩ := hshares.mp ⟨hkey, hnonce⟩
    exact hne (hagree hchain hn)

theorem Book.mono (h : Book R log released) (he : Extends R R') : Book R' log released :=
  List.Forall₂.imp (fun _ _ hs => hs.mono he) h

theorem Book.append (h : Book R log released) (hs : e.Sealed R ct) :
    Book R (log ++ [e]) (released ++ [ct]) :=
  List.rel_append h (.cons hs .nil)

/-- Every key used is one of a registered chain. -/
theorem Book.registered (h : Book R log released) (he : e ∈ log) : R e.chain ≠ none := by
  induction h with
  | nil => cases he
  | cons hs _ ih =>
    rcases List.mem_cons.mp he with rfl | he
    · obtain ⟨b, t, aad, hc, -⟩ := hs
      rw [hc]
      exact nofun
    · exact ih he

section
variable {Q : symbolic.Cipher → symbolic.Cipher → Prop} {S : LogEntry → LogEntry → Prop}

theorem Book.forall_iff (h : Book R log released)
    (hQS : ∀ {e' ct'}, LogEntry.Sealed R e' ct' → (Q ct ct' ↔ S e e')) :
    (∀ ct' ∈ released, Q ct ct') ↔ ∀ e' ∈ log, S e e' := by
  induction h with
  | nil => simp
  | cons hs' _ ih => rw [List.forall_mem_cons, List.forall_mem_cons, hQS hs', ih]

/-- What the log shows of each two entries holds of each two ciphertexts. -/
theorem Book.pairwise_iff (h : Book R log released) (hQS : ∀ {e ct e' ct'},
      LogEntry.Sealed R e ct → LogEntry.Sealed R e' ct' → (Q ct ct' ↔ S e e')) :
    released.Pairwise Q ↔ log.Pairwise S := by
  induction h with
  | nil => exact iff_of_true .nil .nil
  | cons hs hrest ih =>
    rw [List.pairwise_cons, List.pairwise_cons, ih, Book.forall_iff hrest fun hs' => hQS hs hs']

end

theorem Book.keysUnique_iff (h : Book R log released) (hR : Registry m R) :
    KeysUnique released ↔ log.Pairwise LogEntry.Agree :=
  h.pairwise_iff fun hs hs' => hs.not_reused_iff hR hs'

theorem Book.keysOnce_iff (h : Book R log released) (hR : Registry m R) :
    KeysOnce released ↔ log.Pairwise LogEntry.Apart :=
  h.pairwise_iff fun hs hs' => (not_congr (hs.sharesKey_iff hR hs')).trans not_and

end

/-- What a call finds when random values come out as `b`. -/
def answersOf (b : UInt8) : Answers symbolic where
  identity := { ikDhSecret := keyPair 1, ikSignSeed := ⟨.replicate 32 1⟩, spkSecret := keyPair 2 }
  deviceKeys := { ikDhSecret := keyPair 3, spkSecret := keyPair 4 }
  peerBundle := .error (.js "offline")
  posted := true
  ek := keyPair b
  fresh := keyPair b
  keyId := 0
  chainKey := .replicate 32 b
  signingKey := ⟨.replicate 32 b⟩

end Vesper.Client
