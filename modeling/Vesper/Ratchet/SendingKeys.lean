import Vesper.Ratchet.Authenticity

/-!
# Every sending key is used once

What a party seals with, whatever it is fed. Its sending chains are those at every second output of
its lineage, so the two parties never share one, and a chain that is left is never sent on again.
-/

namespace Vesper.DoubleRatchet

section
variable {sk : symbolic.Block} {ds ds' : List symbolic.Block} {i i' r r' : Nat}
  {s : RatchetState symbolic} {mk : symbolic.Block}

/-- A state determines its place in the tree of roots. -/
theorem Lineage.unique (h : Lineage sk ds i r s) (h' : Lineage sk ds' i' r' s) :
    ds = ds' ∧ (ds ≠ [] → i = i') := by
  have hrk := h.rk
  rw [h'.rk] at hrk
  obtain rfl := rootKey_inj hrk
  refine ⟨rfl, fun hds => ?_⟩
  have hcks := h.cks
  rw [h'.cks, if_neg hds, if_neg hds] at hcks
  exact ((root_chainSeed hds).chainKey_inj (root_chainSeed hds) (Option.some.inj hcks.symm)).1

/-- A state with a sending chain takes one step of it. -/
theorem Lineage.encrypted (h : Lineage sk ds i r s) (hds : ds ≠ []) (plaintext aad : Bytes) :
    Lineage sk ds (i + 1) r (DoubleRatchet.encrypt s plaintext aad).1 := by
  have hcks := h.cks
  rw [if_neg hds] at hcks
  rw [encrypt_of_chain hcks]
  exact ⟨h.dhr, h.rk, by rw [if_neg hds, chainKey_chainKey], h.ckr⟩

/-! ## Keys used -/

/-- A message key of the party's own that a state with lineage `ds` has sent with, when it sends
message `i` next. -/
def Used (sk : symbolic.Block) (ds : List symbolic.Block) (i : Nat) (mk : symbolic.Block) :
    Prop :=
  ∃ es j, es ≠ [] ∧ es.length % 2 = ds.length % 2 ∧
    (es.length < ds.length ∨ es = ds ∧ j < i) ∧ mk = messageKey (chainSeed sk es) j

theorem Used.grow (h : Used sk ds i mk) (hgrows : Grows ds i ds' i') : Used sk ds' i' mk := by
  obtain ⟨es, j, hes, hpar, hlt, rfl⟩ := h
  refine ⟨es, j, hes, by rw [hgrows.parity, hpar], ?_, rfl⟩
  rcases hgrows with ⟨rfl, rfl⟩ | hlen
  · exact hlt
  · left
    rcases hlt with hlt | ⟨rfl, -⟩ <;> omega

theorem Used.succ (h : Used sk ds i mk) : Used sk ds (i + 1) mk := by
  obtain ⟨es, j, hes, hpar, hlt, rfl⟩ := h
  exact ⟨es, j, hes, hpar, hlt.imp_right fun h => ⟨h.1, by omega⟩, rfl⟩

theorem used_next (hds : ds ≠ []) : Used sk ds (i + 1) (messageKey (chainSeed sk ds) i) :=
  ⟨ds, i, hds, rfl, .inr ⟨rfl, Nat.lt_succ_self i⟩, rfl⟩

theorem not_used (hds : ds ≠ []) : ¬ Used sk ds i (messageKey (chainSeed sk ds) i) := by
  rintro ⟨es, j, hes, -, hlt, heq⟩
  obtain ⟨rfl, rfl⟩ := messageKey_inj hds hes heq
  omega

/-- The chains of the two parties have different parity. -/
theorem Used.disjoint (h : Used sk ds i mk) (h' : Used sk ds' i' mk) :
    ds.length % 2 = ds'.length % 2 := by
  obtain ⟨es, j, hes, hpar, -, rfl⟩ := h
  obtain ⟨es', j', hes', hpar', -, heq⟩ := h'
  obtain ⟨-, rfl⟩ := messageKey_inj hes hes' heq
  exact hpar.symm.trans hpar'

/-! ## The books of a party -/

/-- The keys under which `encrypt` called `aead_encrypt`, one for each packet released. -/
def sealingKeys (sent : List (Packet symbolic × Bytes)) : List (Option symbolic.Block) :=
  sent.map fun m => m.1.ciphertext.key?

/-- The packets a party released are sealed with keys it has used, no two with the same. -/
structure Outgoing (sk : symbolic.Block) (ds : List symbolic.Block) (i r : Nat)
    (s : RatchetState symbolic) (sent : List (Packet symbolic × Bytes)) : Prop where
  lineage : Lineage sk ds i r s
  used : ∀ m ∈ sent, ∃ mk, m.1.ciphertext.key? = some mk ∧ Used sk ds i mk
  distinct : (sealingKeys sent).Nodup

variable {sent : List (Packet symbolic × Bytes)}

theorem Outgoing.encrypt (h : Outgoing sk ds i r s sent) {plaintext aad : Bytes}
    {header : MessageHeader} {c : symbolic.Cipher}
    (henc : (encrypt s plaintext aad).2 = .ok (header, c)) :
    Outgoing sk ds (i + 1) r (DoubleRatchet.encrypt s plaintext aad).1
      (sent ++ [(⟨header, c, aad⟩, plaintext)]) := by
  obtain ⟨hds, hc⟩ := h.lineage.sealed henc
  have hkey : c.key? = some (messageKey (chainSeed sk ds) i) := by
    rw [← Except.ok.inj hc]
    rfl
  refine ⟨h.lineage.encrypted hds plaintext aad, ?_, ?_⟩
  · intro m hm
    rcases List.mem_append.mp hm with hm | hm
    · obtain ⟨mk, hmk, hused⟩ := h.used m hm
      exact ⟨mk, hmk, hused.succ⟩
    · rw [List.mem_singleton.mp hm]
      exact ⟨_, hkey, used_next hds⟩
  · rw [sealingKeys, List.map_append]
    refine List.nodup_append.mpr ⟨h.distinct, by simp, ?_⟩
    rintro key hkey' key' hnew rfl
    simp only [List.map_cons, List.map_nil, List.mem_singleton, hkey] at hnew
    obtain ⟨m, hm, hmk⟩ := List.mem_map.mp hkey'
    obtain ⟨mk, hmk', hused⟩ := h.used m hm
    rw [hmk', hnew, Option.some.injEq] at hmk
    exact not_used hds (hmk ▸ hused)

theorem Outgoing.grow (h : Outgoing sk ds i r s sent) (hgrows : Grows ds i ds' i')
    {s' : RatchetState symbolic} (hs' : Lineage sk ds' i' r' s') :
    Outgoing sk ds' i' r' s' sent := by
  refine ⟨hs', fun m hm => ?_, h.distinct⟩
  obtain ⟨mk, hmk, hused⟩ := h.used m hm
  exact ⟨mk, hmk, hused.grow hgrows⟩

end

/-! ## Both parties -/

/-- Both parties keep their books, on chains of different parity. -/
def Frugal (S : Start symbolic) (w : World symbolic) : Prop :=
  ∀ who, ∃ ds i r, ds.length % 2 = Side.parity who ∧
    Outgoing S.sk ds i r (w.state who) (w.sent who)

variable {S : Start symbolic} {w : World symbolic} {who : Side}

theorem Start.frugal (S : Start symbolic) : Frugal S S.session.init := by
  intro who
  obtain ⟨ds, i, r, hpar, ht⟩ := S.authentic.tracked who
  exact ⟨ds, i, r, hpar, ht.lineage, by simp [Start.session], by simp [Start.session, sealingKeys]⟩

theorem Frugal.send (h : Frugal S w) (plaintext aad : Bytes) :
    Frugal S (w.send who plaintext aad) := by
  intro side
  obtain ⟨ds, i, r, hpar, hout⟩ := h side
  by_cases hside : side = who
  · subst hside
    simp only [World.send, Function.update_self]
    cases hcks : (w.state side).cks with
    | none =>
      rw [encrypt_of_no_chain hcks]
      exact ⟨ds, i, r, hpar, by simpa using hout⟩
    | some ck =>
      cases henc : (encrypt (w.state side) plaintext aad).2 with
      | error f => simp [encrypt, hcks, aeadEncrypt, Except.map] at henc
      | ok a => exact ⟨ds, i + 1, r, hpar, hout.encrypt henc⟩
  · simp only [World.send, Function.update_of_ne hside]
    exact ⟨ds, i, r, hpar, hout⟩

theorem Frugal.feed (h : Frugal S w) (ha : Authentic S w) (packet : Packet symbolic)
    (fresh : symbolic.Secret) : Frugal S (w.feed who packet fresh) := by
  intro side
  obtain ⟨ds, i, r, hpar, hout⟩ := h side
  by_cases hside : side = who
  · subst hside
    obtain ⟨ds₀, i₀, r₀, -, ht⟩ := ha.tracked side
    obtain ⟨⟨ds', i', r', hgrows, ht'⟩, -⟩ := ht.advance packet.header fresh
    have hlin := ht'.lineage
    obtain ⟨rfl, hi⟩ := hout.lineage.unique ht.lineage
    refine ⟨ds', i', r', hgrows.parity.trans hpar, ?_⟩
    simp only [World.feed, Function.update_self, decrypt_eq]
    by_cases hds : ds = []
    · subst hds
      refine ⟨hlin, fun m hm => ?_, hout.distinct⟩
      obtain ⟨mk, hmk, es, j, hes, -, hlt, -⟩ := hout.used m hm
      rcases hlt with hlt | ⟨rfl, -⟩
      · cases hlt
      · exact absurd rfl hes
    · obtain rfl := hi hds
      exact hout.grow hgrows hlin
  · simp only [World.feed, Function.update_of_ne hside]
    exact ⟨ds, i, r, hpar, hout⟩

theorem books_of_reachable (hw : S.session.Reachable w) : Authentic S w ∧ Frugal S w := by
  refine Machine.Reachable.invariant (M := S.session) (I := fun w => Authentic S w ∧ Frugal S w)
    ⟨S.authentic, S.frugal⟩ ?_ hw
  rintro w e - ⟨ha, hf⟩ -
  cases e with
  | send who plaintext aad => exact ⟨ha.send plaintext aad, hf.send plaintext aad⟩
  | feed who packet fresh => exact ⟨ha.feed packet fresh, hf.feed ha packet fresh⟩

/-- **Message-key uniqueness**: in every run, with any packets fed to either party, all packets
released by the two are sealed, and with pairwise different keys. -/
theorem sealingKeys_nodup (hw : S.session.Reachable w) :
    (sealingKeys (w.sent .alice ++ w.sent .bob)).Nodup ∧
      ∀ key ∈ sealingKeys (w.sent .alice ++ w.sent .bob), key.isSome := by
  have hf := (books_of_reachable hw).2
  obtain ⟨ds, i, r, hpar, ha⟩ := hf .alice
  obtain ⟨ds', i', r', hpar', hb⟩ := hf .bob
  constructor
  · rw [sealingKeys, List.map_append]
    refine List.nodup_append.mpr ⟨ha.distinct, hb.distinct, ?_⟩
    rintro key hkey key' hkey' rfl
    obtain ⟨m, hm, hmk⟩ := List.mem_map.mp hkey
    obtain ⟨m', hm', hmk'⟩ := List.mem_map.mp hkey'
    obtain ⟨mk, hsome, hused⟩ := ha.used m hm
    obtain ⟨mk', hsome', hused'⟩ := hb.used m' hm'
    rw [← hmk', hsome', hsome, Option.some.injEq] at hmk
    have hsame := hused.disjoint (hmk ▸ hused')
    rw [hpar, hpar'] at hsame
    cases hsame
  · intro key hkey
    obtain ⟨m, hm, rfl⟩ := List.mem_map.mp hkey
    rw [Option.isSome_iff_exists]
    rcases List.mem_append.mp hm with hm | hm
    · exact (ha.used m hm).imp fun _ h => h.1
    · exact (hb.used m hm).imp fun _ h => h.1

theorem sealingKeys_nodup_sample :
    (sealingKeys (sampleWorld.sent .alice ++ sampleWorld.sent .bob)).Nodup ∧
      ∀ key ∈ sealingKeys (sampleWorld.sent .alice ++ sampleWorld.sent .bob), key.isSome :=
  sealingKeys_nodup (Machine.Reachable.init.exec
    (by decide +kernel : Machine.Allowed _ _ sampleRun))

end Vesper.DoubleRatchet
