import Vesper.Ratchet.Exposure

/-!
# Forward secrecy of a ratchet state

A state that was stolen does not expose the message keys it has sent or accepted with: the chain
keys it holds are past them, its root key comes after theirs, and none of them is in the cache.
-/

namespace Vesper.DoubleRatchet
open Symbolic (Derives Composed)

section
variable {sk : symbolic.Block} {ds es : List symbolic.Block} {i j r : Nat}
  {s : RatchetState symbolic} {spent : symbolic.Block → Prop}

/-- Root keys before that of the state are not exposed. -/
theorem Tracked.not_composed_rootKey (h : Tracked sk ds i r s spent) (hds : ds ≠ [])
    (hsk : ¬ Derives (fun name => name = s.dhs.name) sk) (hlen : es.length < ds.length) :
    ¬ Composed (fun name => name = s.dhs.name) s.Holds (rootKey sk es) := by
  induction es with
  | nil =>
    intro hc
    refine hsk (hc.derives fun k hk hpart => ?_)
    exact absurd hpart.size_le (Nat.not_le.mpr (h.holds_size hds hk))
  | cons d es ih =>
    intro hc
    have hnot : ¬ s.Holds (rootKey sk (d :: es)) := fun hk => by
      rw [h.holds_rootKey hds (List.cons_ne_nil d es) hk] at hlen
      exact Nat.lt_irrefl _ hlen
    exact ih (Nat.lt_of_succ_lt hlen)
      (composed_kdfRk hc hnot (h.not_holds_extract hds)).1

/-- A message key that is not cached is not exposed, when the state holds no key of its chain that
comes before it. -/
theorem Tracked.not_exposes (h : Tracked sk ds i r s spent) (hds : ds ≠ [])
    (hsk : ¬ Derives (fun name => name = s.dhs.name) sk) (hes : es ≠ [])
    (hlen : es.length ≤ ds.length) (hmk : ¬ s.Holds (messageKey (chainSeed sk es) j))
    (hck : ∀ k ≤ j, ¬ s.Holds (chainKey (chainSeed sk es) k)) :
    ¬ s.Exposes (messageKey (chainSeed sk es) j) := by
  intro hex
  rcases composed_messageKey (hex.composed (h.holds_isKey hds)) hmk with ⟨k, hk, hheld⟩ | hseed
  · exact hck k hk hheld
  · obtain ⟨d, es, rfl⟩ := List.exists_cons_of_ne_nil hes
    have hroot := composed_kdfRk hseed (hck 0 (Nat.zero_le j)) (h.not_holds_extract hds)
    exact h.not_composed_rootKey hds hsk (Nat.lt_of_lt_of_le (Nat.lt_succ_self _) hlen) hroot.1

/-- Keys that the state has sent with. -/
theorem Tracked.not_exposes_used (h : Tracked sk ds i r s spent)
    (hsk : ¬ Derives (fun name => name = s.dhs.name) sk) {mk : symbolic.Block}
    (hmk : Used sk ds i mk) : ¬ s.Exposes mk := by
  obtain ⟨es, j, hes, hpar, hlt, rfl⟩ := hmk
  have hds : ds ≠ [] := by
    rcases hlt with hlt | ⟨rfl, -⟩
    · exact List.ne_nil_of_length_pos (Nat.zero_lt_of_lt hlt)
    · exact hes
  have hdspos := List.length_pos_of_ne_nil hds
  refine h.not_exposes hds hsk hes ?_ (fun hheld => ?_) fun k hk hheld => ?_
  · rcases hlt with hlt | ⟨rfl, -⟩
    · exact Nat.le_of_lt hlt
    · exact Nat.le_refl _
  · -- the cached keys are of the peer's chains
    obtain ⟨⟨es', j', hes', hpar', -, heq⟩, -⟩ := h.holds_messageKey hds hheld
    obtain ⟨-, rfl⟩ := messageKey_inj hes hes' heq
    omega
  · rcases h.holds_chainKey hds hes hheld with ⟨rfl, rfl⟩ | ⟨rfl, -⟩
    · rcases hlt with hlt | ⟨-, hlt⟩ <;> omega
    · rw [List.length_tail] at hpar
      omega

/-- Keys that were tried. -/
theorem Tracked.not_exposes_spent (h : Tracked sk ds i r s spent)
    (hsk : ¬ Derives (fun name => name = s.dhs.name) sk) {mk : symbolic.Block} (hmk : spent mk) :
    ¬ s.Exposes mk := by
  obtain ⟨⟨es, j, hes, hpar, hlt, rfl⟩, hgone⟩ := h.ring.spent mk hmk
  have hlen : es.length ≤ ds.tail.length := by
    rcases hlt with hlt | ⟨rfl, -⟩
    · exact Nat.le_of_lt hlt
    · exact Nat.le_refl _
  have hespos := List.length_pos_of_ne_nil hes
  rw [List.length_tail] at hlen
  have hds : ds ≠ [] := List.ne_nil_of_length_pos (by omega)
  refine h.not_exposes hds hsk hes (by omega) (fun hheld => ?_) fun k hk hheld => ?_
  · obtain ⟨-, q, hq⟩ := h.holds_messageKey hds hheld
    exact hgone q hq
  · rcases h.holds_chainKey hds hes hheld with ⟨rfl, -⟩ | ⟨rfl, rfl⟩
    · omega
    · rcases hlt with hlt | ⟨-, hlt⟩ <;> omega

end

variable {S : Start symbolic} {w : World symbolic} {who : Side}

/-- The state of a party exposes no key of a message that it sent or accepted. -/
theorem not_exposes_past (hw : S.session.Reachable w)
    (hsk : ¬ Derives (fun name => name = (w.state who).dhs.name) S.sk) {mk : symbolic.Block}
    (hmk : some mk ∈ sealingKeys (w.sent who) ∨ AcceptedUnder (w.accepted who) mk) :
    ¬ (w.state who).Exposes mk := by
  obtain ⟨ha, hf⟩ := books_of_reachable hw
  obtain ⟨ds, i, r, -, ht⟩ := ha.tracked who
  rcases hmk with hmk | hmk
  · obtain ⟨ds', i', r', -, hout⟩ := hf who
    obtain ⟨m, hm, hkey⟩ := List.mem_map.mp hmk
    obtain ⟨mk', hmk', hused⟩ := hout.used m hm
    rw [hmk', Option.some.injEq] at hkey
    subst hkey
    obtain ⟨rfl, hi⟩ := hout.lineage.unique ht.lineage
    by_cases hds : ds' = []
    · obtain ⟨es, j, hes, -, hlt, -⟩ := hused
      subst hds
      rcases hlt with hlt | ⟨rfl, -⟩
      · cases hlt
      · exact absurd rfl hes
    · obtain rfl := hi hds
      exact ht.not_exposes_used hsk hused
  · exact ht.not_exposes_spent hsk hmk

end Vesper.DoubleRatchet
