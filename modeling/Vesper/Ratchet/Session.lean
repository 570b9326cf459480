import Vesper.Lib.Machine
import Vesper.Ratchet.KeySchedule
import Vesper.Crypto.Symbolic
import Mathlib.Logic.Function.Basic

/-!
# Sessions

The two parties of a Double Ratchet session as a machine: any party encrypts at any time, and any
triple of header, ciphertext and associated data is fed to any party at any time. What the network
may feed is left to the results, which restrict the machine. Next to the two states the machine
keeps the history that they speak about.
-/

namespace Vesper.DoubleRatchet

inductive Side where
  | alice
  | bob
  deriving DecidableEq, Repr

@[simp] def Side.peer : Side → Side
  | alice => bob
  | bob => alice

@[simp] theorem Side.peer_peer (who : Side) : who.peer.peer = who := by cases who <;> rfl

@[simp] theorem Side.peer_ne (who : Side) : who.peer ≠ who := by cases who <;> simp

theorem Side.eq_or_eq_peer (a b : Side) : a = b ∨ a = b.peer := by
  cases a <;> cases b <;> simp

/-- What goes over the wire, with the associated data both callers pass. -/
structure Packet (P : Primitives) where
  header : MessageHeader
  ciphertext : P.Cipher
  aad : Bytes

instance [DecidableEq P.Cipher] : DecidableEq (Packet P) := fun a b =>
  decidable_of_iff (a.header = b.header ∧ a.ciphertext = b.ciphertext ∧ a.aad = b.aad) <| by
    cases a; cases b; simp

/-- The secrets a session starts from, and Alice's first state. -/
structure Start (P : Primitives) where
  sk : P.Block
  spk : P.Secret
  ephemeral : P.Secret
  alice : RatchetState P
  init : initSender P sk (P.publicKey spk) ephemeral = .ok alice
  distinct : P.publicKey ephemeral ≠ P.publicKey spk

/-- The states of both sides and their history: the packets each side released, each with its
plaintext; the packets fed to it; those it accepted, each with what `decrypt` returned; and every
ratchet key generated so far. -/
structure World (P : Primitives) where
  state : Side → RatchetState P
  sent : Side → List (Packet P × Bytes)
  fed : Side → List (Packet P)
  accepted : Side → List (Packet P × Bytes)
  keys : List KeyAgreementPublicKey

inductive Event (P : Primitives) where
  | send (who : Side) (plaintext aad : Bytes)
  | feed (who : Side) (packet : Packet P) (fresh : P.Secret)

variable {P : Primitives}

/-- The session that a successful `init_sender` starts. -/
def Start.of (sk : P.Block) (spk ephemeral : P.Secret)
    (distinct : P.publicKey ephemeral ≠ P.publicKey spk) : Start P :=
  { sk, spk, ephemeral, distinct, alice := _, init := initSender_eq .. }

/-- `decrypt` gets as far as generating a key pair. -/
def generates (s : RatchetState P) (header : MessageHeader) : Bool :=
  s.mkskipped[(header.dh.bytes.toList, header.n)]?.isNone && remoteKeyChanged s header &&
    (skipMessageKeys s header.pn).2.isOk

/-- Party `who` calls `encrypt`. -/
def World.send (w : World P) (who : Side) (plaintext aad : Bytes) : World P :=
  let (s, result) := encrypt (w.state who) plaintext aad
  { w with
    state := Function.update w.state who s
    sent := Function.update w.sent who <| w.sent who ++
      match result with
      | .ok (header, ciphertext) => [({ header, ciphertext, aad }, plaintext)]
      | .error _ => [] }

/-- Party `who` calls `decrypt`. -/
def World.feed (w : World P) (who : Side) (packet : Packet P) (fresh : P.Secret) : World P :=
  let (s, result) := decrypt (w.state who) packet.header packet.ciphertext packet.aad fresh
  { w with
    state := Function.update w.state who s
    fed := Function.update w.fed who (w.fed who ++ [packet])
    accepted := Function.update w.accepted who <| w.accepted who ++
      match result with
      | .ok plaintext => [(packet, plaintext)]
      | .error _ => []
    keys := if generates (w.state who) packet.header then P.publicKey fresh :: w.keys else w.keys }

def World.next (w : World P) : Event P → World P
  | .send who plaintext aad => w.send who plaintext aad
  | .feed who packet fresh => w.feed who packet fresh

/-- A generated key pair is new. -/
def World.Fresh (w : World P) : Event P → Prop
  | .send .. => True
  | .feed who packet fresh =>
    generates (w.state who) packet.header = true → P.publicKey fresh ∉ w.keys

instance (w : World P) : ∀ e, Decidable (w.Fresh e)
  | .send .. => .isTrue trivial
  | .feed who packet _ =>
    inferInstanceAs (Decidable (generates (w.state who) packet.header = true → _ ∉ w.keys))

/-- The session of two matched parties. -/
def Start.session (S : Start P) : Machine (World P) (Event P) where
  init :=
    { state := fun
        | .alice => S.alice
        | .bob => initReceiver P S.sk S.spk
      sent := fun _ => []
      fed := fun _ => []
      accepted := fun _ => []
      keys := [P.publicKey S.ephemeral, P.publicKey S.spk] }
  enabled := World.Fresh
  next := World.next

instance (S : Start P) (w : World P) (e : Event P) : Decidable (S.session.enabled w e) :=
  inferInstanceAs (Decidable (w.Fresh e))

/-! ## A sample session -/

/-- Key pairs to try the session with. -/
def keyPair (b : UInt8) : KeyName := ⟨⟨.replicate 32 b⟩⟩

def sampleStart : Start symbolic := .of (.atom 0) (keyPair 1) (keyPair 2) (by decide)

/-- The latest packet of `who`. -/
def latest (w : World symbolic) (who : Side) : Packet symbolic :=
  ((w.sent who).getLast?.map Prod.fst).getD ⟨⟨(keyPair 0).name, 0, 0⟩, .raw [], []⟩

/-- Alice sends one message. -/
def sampleRun : List (Event symbolic) := [.send .alice [7] []]

def sampleWorld : World symbolic := sampleStart.session.exec sampleStart.session.init sampleRun

end Vesper.DoubleRatchet
