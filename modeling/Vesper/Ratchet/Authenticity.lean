import Vesper.Ratchet.KeyRing
import Vesper.Ratchet.Session

/-!
# Authenticity against an active attacker

The attacker is the network: it feeds either party any header and associated data with any
ciphertext it has seen or can seal itself. As long as the shared secret is not derivable, a party
accepts only what its peer released, exactly as released, and nothing twice.
-/

namespace Vesper.DoubleRatchet
open Symbolic (Derives Sealed)

theorem encodeHeader_length (h : MessageHeader) : (encodeHeader h).length = 40 := by
  simp [encodeHeader]

theorem encodeHeader_inj {h h' : MessageHeader} : encodeHeader h = encodeHeader h' ↔ h = h' := by
  refine ⟨fun heq => ?_, congrArg _⟩
  obtain ⟨hdh, hrest⟩ := List.append_inj heq (by simp)
  obtain ⟨hpn, hn⟩ := List.append_inj hrest (by simp)
  cases h
  cases h'
  simp_all [dhKey_inj, be32_inj]

theorem buildAad_inj {h h' : MessageHeader} {extra extra' : Bytes} :
    buildAad h extra = buildAad h' extra' ↔ h = h' ∧ extra = extra' := by
  constructor
  · intro heq
    obtain ⟨hextra, hheader⟩ := List.append_inj' heq (by simp [encodeHeader_length])
    exact ⟨encodeHeader_inj.mp hheader, hextra⟩
  · rintro ⟨rfl, rfl⟩
    rfl

/-- The steps over a network that the attacker controls. -/
def Hostile (broken : KeyAgreementPublicKey → Prop) (w : World symbolic) :
    Event symbolic → Prop
  | .send .. => True
  | .feed _ packet _ =>
    Sealed.Forgeable broken (fun c => ∃ who, ∃ m ∈ w.sent who, m.1.ciphertext = c)
      packet.ciphertext

/-- The parity of the number of Diffie-Hellman outputs behind a party's sending chains. -/
def Side.parity : Side → Nat
  | .alice => 1
  | .bob => 0

/-- A packet that a party accepted was sealed with `mk`. -/
def AcceptedUnder (accepted : List (Packet symbolic × Bytes)) (mk : symbolic.Block) : Prop :=
  ∃ m ∈ accepted, ∃ nonce p aad, m.1.ciphertext = .box mk nonce p aad

/-- A packet sealed with a key of one of the sending chains of `who`. -/
def SealedBy (sk : symbolic.Block) (who : Side) (m : Packet symbolic × Bytes) : Prop :=
  ∃ ds i, ds ≠ [] ∧ ds.length % 2 = who.parity ∧
    m.1.ciphertext = .box (messageKey (chainSeed sk ds) i) (messageNonce m.1.header.n) m.2
      (buildAad m.1.header m.1.aad)

structure Authentic (S : Start symbolic) (w : World symbolic) : Prop where
  tracked : ∀ who, ∃ ds i r, ds.length % 2 = Side.parity who ∧
    Tracked S.sk ds i r (w.state who) (AcceptedUnder (w.accepted who))
  sealed : ∀ who, ∀ m ∈ w.sent who, SealedBy S.sk who m

variable {S : Start symbolic} {w : World symbolic} {who : Side}
  {broken : KeyAgreementPublicKey → Prop}

theorem Start.authentic (S : Start symbolic) : Authentic S S.session.init := by
  constructor
  · intro who
    cases who with
    | alice =>
      obtain ⟨hlin, hskipped⟩ := Lineage.of_initSender S.init
      exact ⟨_, 0, 0, rfl, hlin, by
        constructor <;> simp [Start.session, hskipped, AcceptedUnder]⟩
    | bob =>
      exact ⟨_, 0, 0, rfl, Lineage.of_initReceiver S.spk, by
        constructor <;> simp [Start.session, initReceiver, AcceptedUnder]⟩
  · simp [Start.session]

theorem Authentic.send (h : Authentic S w) (plaintext aad : Bytes) :
    Authentic S (w.send who plaintext aad) := by
  obtain ⟨ds, i, r, hpar, ht⟩ := h.tracked who
  constructor
  · intro side
    by_cases hside : side = who
    · subst hside
      obtain ⟨i', hlin, hskipped⟩ := ht.lineage.encrypt plaintext aad
      refine ⟨ds, i', r, hpar, ?_, ?_⟩
      · simpa only [World.send, Function.update_self] using hlin
      · simpa only [World.send, Function.update_self, hskipped] using ht.ring
    · simpa only [World.send, Function.update_of_ne hside] using h.tracked side
  · intro side m hm
    by_cases hside : side = who
    · subst hside
      simp only [World.send, Function.update_self, List.mem_append] at hm
      rcases hm with hm | hm
      · exact h.sealed side m hm
      · cases henc : (encrypt (w.state side) plaintext aad).2 with
        | error => simp [henc] at hm
        | ok a =>
          obtain ⟨header, c⟩ := a
          obtain ⟨hds, hc⟩ := ht.lineage.sealed henc
          simp only [henc, List.mem_singleton] at hm
          subst hm
          exact ⟨ds, i, hds, hpar, (Except.ok.inj hc).symm⟩
    · simp only [World.send, Function.update_of_ne hside] at hm
      exact h.sealed side m hm

/-- What `decrypt` accepts is sealed with the key that `advance` chose. -/
theorem decrypt_ok_symbolic {s : RatchetState symbolic} {header : MessageHeader}
    {c : symbolic.Cipher} {aad : Bytes} {fresh : symbolic.Secret} {p : Bytes} :
    (decrypt s header c aad fresh).2 = .ok p ↔ ∃ mk, (advance s header fresh).2 = .ok mk ∧
      c = .box mk (messageNonce header.n) p (buildAad header aad) := by
  simp only [decrypt_ok_iff, decryptWithMk, symbolic_aeadDecrypt_ok_iff]

theorem Authentic.feed (h : Authentic S w) (packet : Packet symbolic) (fresh : symbolic.Secret) :
    Authentic S (w.feed who packet fresh) := by
  obtain ⟨ds, i, r, hpar, ht⟩ := h.tracked who
  refine ⟨fun side => ?_, h.sealed⟩
  by_cases hside : side = who
  · subst hside
    obtain ⟨⟨ds', i', r', hgrows, ht'⟩, -⟩ := ht.advance packet.header fresh
    have hstate : (w.feed side packet fresh).state side =
        (advance (w.state side) packet.header fresh).1 := by
      simp only [World.feed, Function.update_self, decrypt_eq]
    refine ⟨ds', i', r', hgrows.parity.trans hpar, hstate ▸ ht'.lineage, hstate ▸ ht'.ring.weaken ?_⟩
    rintro mk ⟨m, hm, nonce, p, aad, hc⟩
    simp only [World.feed, Function.update_self, List.mem_append] at hm
    rcases hm with hm | hm
    · exact .inl ⟨m, hm, nonce, p, aad, hc⟩
    · cases hdec : (decrypt (w.state side) packet.header packet.ciphertext packet.aad fresh).2 with
      | error => simp [hdec] at hm
      | ok plaintext =>
        simp only [hdec, List.mem_singleton] at hm
        subst hm
        obtain ⟨mk', hadv, hc'⟩ := decrypt_ok_symbolic.mp hdec
        rw [hc'] at hc
        obtain ⟨rfl, -⟩ := Sealed.box.inj hc
        exact .inr hadv
  · simpa only [World.feed, Function.update_of_ne hside] using h.tracked side

theorem authentic_of_reachable (hw : (S.session.restrict (Hostile broken)).Reachable w) :
    Authentic S w := by
  refine Machine.Reachable.invariant (M := S.session.restrict (Hostile broken))
    (I := Authentic S) S.authentic ?_ hw
  rintro w e - h -
  cases e with
  | send who plaintext aad => exact h.send plaintext aad
  | feed who packet fresh => exact h.feed packet fresh

/-- **Authenticity**: a packet that a party accepts was released before by its peer for the same
plaintext, and the party has not accepted it yet. -/
theorem decrypt_authentic {plaintext : Bytes} {packet : Packet symbolic}
    {fresh : symbolic.Secret} (hsk : ¬ Derives broken S.sk)
    (hw : (S.session.restrict (Hostile broken)).Reachable w)
    (he : (S.session.restrict (Hostile broken)).enabled w (.feed who packet fresh))
    (hok : (decrypt (w.state who) packet.header packet.ciphertext packet.aad fresh).2 =
      .ok plaintext) :
    (packet, plaintext) ∈ w.sent who.peer ∧ packet ∉ (w.accepted who).map Prod.fst := by
  have h := authentic_of_reachable hw
  obtain ⟨ds, i, r, hpar, ht⟩ := h.tracked who
  obtain ⟨mk, hadv, hc⟩ := decrypt_ok_symbolic.mp hok
  obtain ⟨⟨ds', i', r', hgrows, ht'⟩, hspent⟩ := ht.advance packet.header fresh
  have hpar' := hgrows.parity
  obtain ⟨⟨es, j, hes, hlen, -, rfl⟩, -⟩ := ht'.ring.spent mk (.inr hadv)
  constructor
  · have hf := he.2
    rw [Hostile, hc] at hf
    cases hf with
    | box hk => exact absurd (hk.part (part_messageKey hes)) hsk
    | seen hs =>
      obtain ⟨side, m, hm, hmc⟩ := hs
      obtain ⟨ds1, i1, hds1, hpar1, hc1⟩ := h.sealed side m hm
      rw [hc1] at hmc
      obtain ⟨hk, -, hp, haad⟩ := Sealed.box.inj hmc
      obtain ⟨rfl, rfl⟩ := messageKey_inj hds1 hes hk
      obtain ⟨hheader, haad⟩ := buildAad_inj.mp haad
      -- the peer's chains and the party's own have outputs of different parity
      obtain rfl : side = who.peer := by
        rcases Side.eq_or_eq_peer side who with rfl | hside
        · omega
        · exact hside
      have hpacket : m = (packet, plaintext) := by
        obtain ⟨⟨header, c, aad⟩, p⟩ := m
        obtain ⟨header', c', aad'⟩ := packet
        simp_all
      exact hpacket ▸ hm
  · intro hmem
    obtain ⟨m, hm, rfl⟩ := List.mem_map.mp hmem
    exact hspent _ hadv ⟨m, hm, _, _, _, hc⟩

theorem decrypt_authentic_sample :
    (latest sampleWorld .alice, [7]) ∈ sampleWorld.sent .alice ∧
      latest sampleWorld .alice ∉ (sampleWorld.accepted .bob).map Prod.fst := by
  have hall : (sampleStart.session.restrict (Hostile fun _ => True)).Allowed
      sampleStart.session.init sampleRun := ⟨⟨trivial, trivial⟩, trivial⟩
  have hfeed : (sampleStart.session.restrict (Hostile fun _ => True)).enabled sampleWorld
      (.feed .bob (latest sampleWorld .alice) (keyPair 3)) :=
    ⟨by decide +kernel, .seen ⟨.alice, by decide +kernel⟩⟩
  exact decrypt_authentic Derives.not_atom (Machine.Reachable.init.exec hall) hfeed
    (by decide +kernel)

end Vesper.DoubleRatchet
