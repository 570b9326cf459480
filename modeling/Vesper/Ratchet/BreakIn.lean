import Vesper.Ratchet.Atomicity
import Vesper.Ratchet.Exposure

/-!
# Break-in recovery

An attacker learns the whole state of one party, and from then on only watches. In an honest run
the next ratchet step of that party mixes in a key pair the attacker does not have, and every chain
from there on is out of its reach, as long as the counters do not wrap: after a wrap a message of an
old chain can come too late for the cache, and it turns the ratchet back.
-/

namespace Vesper.DoubleRatchet
open Symbolic (Term Deduces Composed not_isKey_shared)

/-! ## Honest runs -/

/-- Genuine packets arrive, in any order, each at most once. -/
def Honest (w : World symbolic) : Event symbolic → Prop
  | .send .. => True
  | .feed who packet _ => packet ∈ (w.sent who.peer).map Prod.fst ∧ packet ∉ w.fed who

instance (w : World symbolic) : ∀ e, Decidable (Honest w e)
  | .send .. => .isTrue trivial
  | .feed who packet _ => inferInstanceAs (Decidable (packet ∈ _ ∧ packet ∉ w.fed who))

/-- The send counter does not wrap. -/
def Counted (w : World symbolic) : Event symbolic → Prop
  | .send who _ _ => (w.state who).ns.toNat + 1 < 2 ^ 32
  | .feed .. => True

instance (w : World symbolic) : ∀ e, Decidable (Counted w e)
  | .send who _ _ => inferInstanceAs (Decidable ((w.state who).ns.toNat + 1 < 2 ^ 32))
  | .feed .. => .isTrue trivial

def Start.honest (S : Start symbolic) : Machine (World symbolic) (Event symbolic) :=
  S.session.restrict Honest

def Start.counted (S : Start symbolic) : Machine (World symbolic) (Event symbolic) :=
  S.honest.restrict Counted

instance (S : Start symbolic) (w : World symbolic) (e : Event symbolic) :
    Decidable (S.honest.enabled w e) := inferInstanceAs (Decidable (w.Fresh e ∧ Honest w e))

instance (S : Start symbolic) (w : World symbolic) (e : Event symbolic) :
    Decidable (S.counted.enabled w e) :=
  inferInstanceAs (Decidable (S.honest.enabled w e ∧ Counted w e))

section
variable {S : Start symbolic} {T : Timeline symbolic} {ep rp : Side → Nat} {w : World symbolic}
  {who : Side} {m : Packet symbolic × Bytes} {fresh : symbolic.Secret}

/-- A packet over the limit of the chain it starts moves the ratchet, and is lost. -/
theorem Matched.feed_over_limit (h : Matched S T ep rp w) (hm : m ∈ w.sent who.peer)
    (hgot : m.1 ∉ (w.accepted who).map Prod.fst)
    (hmiss : (w.state who).mkskipped[(m.1.header.dh.bytes.toList, m.1.header.n)]? = none)
    (hdhr : (w.state who).dhr ≠ some m.1.header.dh)
    (hpn : m.1.header.pn.toNat ≤ (w.state who).nr.toNat + 1000) (hn : 1000 < m.1.header.n.toNat)
    (hfresh : generates (w.state who) m.1.header = true → symbolic.publicKey fresh ∉ w.keys) :
    ∃ T' ep' rp', T.Before T' ∧ (∀ side, ep side ≤ ep' side) ∧
      Matched S T' ep' rp' (w.feed who m.1 fresh) := by
  have hin := h.inbox who
  obtain ⟨c, hdh, -, hp, hpast | ⟨rfl, he, -⟩ | ⟨rfl, htop⟩⟩ := h.position hm
  · rw [hin.pending m hm hgot c hdh hpast] at hmiss
    cases hmiss
  · rw [hin.synced.dhr, if_neg (by omega), hdh] at hdhr
    exact absurd rfl hdhr
  · obtain ⟨s0, hs0, -⟩ := hin.synced.skipMessageKeys hpn
    have hgen : generates (w.state who) m.1.header = true := by
      simp [generates, hmiss, remoteKeyChanged_eq_true_iff.mpr hdhr, hs0, Except.isOk,
        Except.toBool]
    have hf : ∀ i ≤ T.top, symbolic.publicKey (T.x i) ≠ symbolic.publicKey fresh :=
      fun i hi heq => hfresh hgen (heq ▸ h.keys i hi)
    obtain ⟨s1, hs1, hin'⟩ := hin.ratchet symbolic_dhCommutes h.released htop hp.pn hpn hf
    have hadv : DoubleRatchet.advance (w.state who) m.1.header fresh =
        (ratcheted s1 m.1.header.dh fresh, .error (.error .skipLimitExceeded)) := by
      rw [advance_changed hmiss hdhr, hs1]
      exact advanceTo_ratcheted_of_limit hn
    have hdec : decrypt (w.state who) m.1.header m.1.ciphertext m.1.aad fresh =
        (ratcheted s1 m.1.header.dh fresh, .error (.error .skipLimitExceeded)) := by
      rw [decrypt_eq, hadv]
      rfl
    refine ⟨_, _, _, h.receive 0 ?_ (.inr ⟨htop, rfl, hgen, hf, rfl⟩)⟩
    simp only [World.feed, hdec, Function.update_self, List.append_nil]
    rw [hdh]
    exact hin'

/-- The parties stay matched over an honest delivery, also over one that fails. -/
theorem Matched.feed_honest (h : Matched S T ep rp w) (hm : m ∈ w.sent who.peer)
    (hgot : m.1 ∉ (w.accepted who).map Prod.fst)
    (hfresh : generates (w.state who) m.1.header = true → symbolic.publicKey fresh ∉ w.keys) :
    ∃ T' ep' rp', T.Before T' ∧ (∀ side, ep side ≤ ep' side) ∧
      Matched S T' ep' rp' (w.feed who m.1 fresh) := by
  have hs := (h.inbox who).synced
  cases hadv : (DoubleRatchet.advance (w.state who) m.1.header fresh).2 with
  | ok mk =>
    exact (h.feed symbolic_dhCommutes symbolic_aeadInverts hm hgot (withinSkip_of_advance hadv)
      hfresh).2
  | error f =>
    have hchain : (w.state who).ckr ≠ none → (w.state who).dhr ≠ none := by
      rw [hs.ckr, hs.dhr]
      intro hckr
      have he : ¬ ep who ≤ 1 := fun he => hckr (if_pos he)
      rw [if_neg (by omega)]
      simp
    rcases advance_error hchain hadv with hrej | ⟨hmiss, hdhr, hpn, hn⟩
    · exact ⟨T, ep, rp, .refl T, fun _ => Nat.le_refl _, h.feed_rejected hrej fresh⟩
    · exact h.feed_over_limit hm hgot hmiss hdhr hpn hn hfresh

theorem Matched.next (h : Matched S T ep rp w) {e : Event symbolic}
    (he : S.counted.enabled w e) :
    ∃ T' ep' rp', T.Before T' ∧ (∀ side, ep side ≤ ep' side) ∧
      Matched S T' ep' rp' (S.counted.next w e) := by
  obtain ⟨⟨hfresh, hhonest⟩, hcounted⟩ := he
  cases e with
  | send who plaintext aad =>
    change ∃ T' ep' rp', _ ∧ _ ∧ Matched S T' ep' rp' (w.send who plaintext aad)
    cases henc : (encrypt (w.state who) plaintext aad).2 with
    | error => exact ⟨T, ep, rp, .refl T, fun _ => Nat.le_refl _, by rw [send_error henc]; exact h⟩
    | ok a =>
      obtain ⟨T', hbefore, h'⟩ := h.send (by rw [henc]; rfl) hcounted
      exact ⟨T', ep, rp, hbefore, fun _ => Nat.le_refl _, h'⟩
  | feed who packet fresh =>
    obtain ⟨m, hm, rfl⟩ := List.mem_map.mp hhonest.1
    exact h.feed_honest hm (h.not_accepted hhonest.2) hfresh

/-- A run from a matched world. -/
theorem Matched.exec (h : Matched S T ep rp w) {es : List (Event symbolic)}
    (hes : S.counted.Allowed w es) :
    ∃ T' ep' rp', T.Before T' ∧ (∀ side, ep side ≤ ep' side) ∧
      Matched S T' ep' rp' (S.counted.exec w es) := by
  induction es generalizing w T ep rp with
  | nil => exact ⟨T, ep, rp, .refl T, fun _ => Nat.le_refl _, h⟩
  | cons e es ih =>
    obtain ⟨T₁, ep₁, rp₁, hbefore₁, hep₁, h₁⟩ := h.next hes.1
    obtain ⟨T₂, ep₂, rp₂, hbefore₂, hep₂, h₂⟩ := ih h₁ hes.2
    exact ⟨T₂, ep₂, rp₂, hbefore₁.trans hbefore₂,
      fun side => Nat.le_trans (hep₁ side) (hep₂ side), h₂⟩

theorem matched_of_counted (hw : S.counted.Reachable w) : ∃ T ep rp, Matched S T ep rp w := by
  obtain ⟨es, hes, rfl⟩ := Machine.reachable_iff.mp hw
  obtain ⟨T, ep, rp, -, -, h⟩ := S.matched.exec hes
  exact ⟨T, ep, rp, h⟩

/-- A party takes the ratchet step under the latest key of its peer. -/
theorem Matched.top_of_generates (h : Matched S T ep rp w) (hm : m ∈ w.sent who.peer)
    (hgot : m.1 ∉ (w.accepted who).map Prod.fst)
    (hgen : generates (w.state who) m.1.header = true) : T.top = ep who + 1 := by
  have hin := h.inbox who
  simp only [generates, Bool.and_eq_true, Option.isNone_iff_eq_none,
    remoteKeyChanged_eq_true_iff] at hgen
  obtain ⟨⟨hmiss, hdhr⟩, -⟩ := hgen
  obtain ⟨c, hdh, -, -, hpast | ⟨rfl, he, -⟩ | ⟨-, htop⟩⟩ := h.position hm
  · rw [hin.pending m hm hgot c hdh hpast] at hmiss
    cases hmiss
  · rw [hin.synced.dhr, if_neg (by omega), hdh] at hdhr
    exact absurd rfl hdhr
  · exact htop

end

/-! ## Chains out of reach -/

section
variable {sk : symbolic.Block} {ds es : List symbolic.Block} {i j r : Nat}
  {s : RatchetState symbolic} {spent : symbolic.Block → Prop} {a b : KeyAgreementPublicKey}

/-- Besides its root key a state holds keys of chains up to its own. -/
theorem Tracked.holds_cases (h : Tracked sk ds i r s spent) {t : symbolic.Block}
    (ht : s.Holds t) : t = rootKey sk ds ∨ ∃ fs k, fs ≠ [] ∧ fs.length ≤ ds.length ∧
      (t = chainKey (chainSeed sk fs) k ∨ t = messageKey (chainSeed sk fs) k) := by
  have htail := List.length_tail (l := ds)
  rcases h.holds ht with heq | ⟨hds, heq⟩ | ⟨hds, heq⟩ | ⟨⟨fs, k, hfs, -, hlt, heq⟩, -⟩
  · exact .inl heq
  · exact .inr ⟨ds, i, hds, Nat.le_refl _, .inl heq⟩
  · exact .inr ⟨ds.tail, r, hds, by omega, .inl heq⟩
  · refine .inr ⟨fs, k, hfs, ?_, .inr heq⟩
    rcases hlt with hlt | ⟨rfl, -⟩ <;> omega

/-- A chain that starts after the state, under key pairs that are not its own. -/
theorem Tracked.not_exposes_later (h : Tracked sk ds i r s spent) (hkey : sk.IsKey)
    (hlen : ds.length ≤ es.length) (ha : a ≠ s.dhs.name) (hb : b ≠ s.dhs.name) :
    ¬ s.Exposes (messageKey (chainSeed sk (.shared a b :: es)) j) := by
  have hne : Term.shared a b :: es ≠ [] := List.cons_ne_nil _ _
  have hsize := size_rootKey sk es
  have hlater : ∀ {fs : List symbolic.Block}, fs.length ≤ ds.length → .shared a b :: es ≠ fs := by
    rintro fs hle rfl
    rw [List.length_cons] at hle
    omega
  -- nothing held lies on the way from the key to the step that mixes in `a` and `b`
  have hroot : ∀ {t : symbolic.Block}, (∀ salt d, t ≠ .expand (.extract salt (.cats [d])) rkInfo 0) →
      Term.size sk < Term.size t → t ≠ rootKey sk ds := by
    intro t hexpand hlt heq
    by_cases hds : ds = []
    · subst hds
      rw [heq] at hlt
      exact Nat.lt_irrefl _ hlt
    · obtain ⟨salt, d, hd⟩ := rootKey_eq_expand sk hds
      exact hexpand salt d (heq.trans hd)
  have hisKey : ∀ t, s.Holds t → t.IsKey := by
    intro t ht
    by_cases hds : ds = []
    · subst hds
      rcases h.holds_cases ht with rfl | ⟨fs, k, hfs, hle, -⟩
      · exact hkey
      · exact absurd (List.length_eq_zero_iff.mp (Nat.le_zero.mp hle)) hfs
    · exact h.holds_isKey hds t ht
  have hmk : ¬ s.Holds (messageKey (chainSeed sk (.shared a b :: es)) j) := by
    intro ht
    rcases h.holds_cases ht with heq | ⟨fs, k, hfs, hle, heq | heq⟩
    · exact hroot (fun _ _ h => by cases h) (Nat.lt_succ_of_lt (size_lt_chainKey hne)) heq
    · exact chainKey_ne_messageKey hfs heq.symm
    · exact hlater hle (messageKey_inj hne hfs heq).2
  have hck : ∀ k, ¬ s.Holds (chainKey (chainSeed sk (.shared a b :: es)) k) := by
    intro k ht
    rcases h.holds_cases ht with heq | ⟨fs, k', hfs, hle, heq | heq⟩
    · refine hroot (fun salt d hd => ?_) (size_lt_chainKey hne) heq
      cases k with
      | zero => exact absurd (Term.expand.inj hd).2.2 (by decide)
      | succ k => cases hd
    · obtain ⟨-, hseed⟩ := (root_chainSeed hne).chainKey_inj (root_chainSeed hfs) heq
      exact hlater hle (chainSeed_inj hne hfs hseed)
    · exact chainKey_ne_messageKey hne heq
  have hprk : ¬ s.Holds (.extract (rootKey sk es) (.cats [.shared a b])) := by
    intro ht
    rcases h.holds_cases ht with heq | ⟨fs, k, hfs, -, heq | heq⟩
    · refine hroot (fun _ _ h => by cases h) ?_ heq
      simp only [Term.size]
      omega
    · obtain ⟨salt, d, hseed⟩ := chainSeed_eq_expand sk hfs
      rw [hseed] at heq
      cases k <;> cases heq
    · cases heq
  intro hex
  rcases composed_messageKey (hex.composed hisKey) hmk with ⟨k, -, hheld⟩ | hseed
  · exact hck k hheld
  · have hd := (composed_kdfRk hseed (hck 0) hprk).2
    rcases hd.broken_of_shared fun ht => not_isKey_shared (hisKey _ ht) with heq | heq
    · exact ha heq
    · exact hb heq

end

variable {S : Start symbolic} {w w₁ : World symbolic} {who side : Side}
  {T T₁ : Timeline symbolic} {ep rp ep₁ rp₁ : Side → Nat}

/-- The chains that start two epochs or more after the one in which a state was stolen. -/
theorem Matched.not_exposes (h₁ : Matched S T₁ ep₁ rp₁ w₁) (hw₁ : S.session.Reachable w₁)
    (hkey : S.sk.IsKey) (hbefore : T₁.Before T) {c : Nat} (hc : ep₁ who + 2 ≤ c) (htop : c ≤ T.top)
    (j : Nat) : ¬ (w₁.state who).Exposes (messageKey (seed S.sk T.x c) j) := by
  obtain ⟨ds, i, r, -, ht⟩ := (books_of_reachable hw₁).1.tracked who
  have hs := (h₁.inbox who).synced
  have hle := (h₁.inbox who).epoch
  have hds : ds = dhOuts T₁.x (ep₁ who) := by
    have hrk := hs.rk
    rw [ht.lineage.rk] at hrk
    exact rootKey_inj hrk
  have hlen : ds.length = ep₁ who := by rw [hds, length_dhOuts]
  have hname : ∀ i ≤ T.top, i ≠ ep₁ who → (T.x i).name ≠ (w₁.state who).dhs.name := by
    intro i hi hne heq
    rw [hs.dhs, hbefore.x _ hle] at heq
    exact hne (T.distinct i hi _ (Nat.le_trans hle hbefore.top) heq)
  obtain ⟨c, rfl⟩ := Nat.exists_eq_succ_of_ne_zero (Nat.ne_zero_of_lt hc)
  have hlater : ds.length ≤ (dhOuts T.x c).length := by
    rw [hlen, length_dhOuts]
    omega
  exact ht.not_exposes_later hkey hlater (hname _ htop (by omega)) (hname c (by omega) (by omega))

/-- **Break-in recovery**: once a party whose state was stolen has taken one more ratchet step, no
message key of the chain it starts there or of a chain that either party starts later is exposed:
neither those a chain has yet to use, nor those that packets were sealed with. -/
theorem break_in_recovery {es es' : List (Event symbolic)} {packet : Packet symbolic}
    {fresh : symbolic.Secret} (hkey : S.sk.IsKey) (hw₁ : S.counted.Reachable w₁)
    (hes : S.counted.Allowed w₁ es)
    (hgen : generates ((S.counted.exec w₁ es).state who) packet.header = true)
    (hes' : S.counted.Allowed (S.counted.exec w₁ es) (.feed who packet fresh :: es'))
    (hw : w = S.counted.exec (S.counted.exec w₁ es) (.feed who packet fresh :: es')) :
    ((w.state side).dhs.name ∉ (S.counted.exec w₁ es).keys → ∀ ck, (w.state side).cks = some ck →
      ∀ j, ¬ (w₁.state who).Exposes (messageKey ck j)) ∧
    ∀ m ∈ w.sent side, m.1.header.dh ∉ (S.counted.exec w₁ es).keys →
      ∀ mk, m.1.ciphertext.key? = some mk → ¬ (w₁.state who).Exposes mk := by
  obtain ⟨T₁, ep₁, rp₁, h₁⟩ := matched_of_counted hw₁
  obtain ⟨T₂, ep₂, rp₂, hbefore₂, hep₂, h₂⟩ := h₁.exec hes
  obtain ⟨T, ep, rp, hbefore, -, h⟩ := h₂.exec hes'
  rw [← hw] at h
  obtain ⟨m, hm, rfl⟩ := List.mem_map.mp hes'.1.1.2.1
  have htop := h₂.top_of_generates hm (h₂.not_accepted hes'.1.1.2.2) hgen
  have hle := hep₂ who
  -- a key that is new since the step is later on the timeline
  have hnew : ∀ c ≤ T.top, (T.x c).name ∉ (S.counted.exec w₁ es).keys → ep₁ who + 2 ≤ c := by
    intro c hc hkeys
    by_contra hlt
    rw [← hbefore.x c (by omega)] at hkeys
    exact hkeys (h₂.keys c (by omega))
  have hout : ∀ c, ep₁ who + 2 ≤ c → c ≤ T.top → ∀ j,
      ¬ (w₁.state who).Exposes (messageKey (seed S.sk T.x c) j) := fun _ =>
    h₁.not_exposes hw₁.of_restrict.of_restrict hkey (hbefore₂.trans hbefore)
  have hin := h.inbox side
  constructor
  · intro hkeys ck hck j
    rw [hin.synced.dhs] at hkeys
    rw [hin.synced.cks, Option.ite_none_left_eq_some] at hck
    obtain rfl := Option.some.inj hck.2
    rw [messageKey_chainKey]
    exact hout _ (hnew _ hin.epoch hkeys) hin.epoch _
  · intro m hm hkeys mk hmk
    obtain ⟨c, n, -, hle, -, hp⟩ := (h.outbox side).packets m hm
    have hc : c ≤ T.top := Nat.le_trans hle hin.epoch
    rw [hp.dh] at hkeys
    rw [← Except.ok.inj hp.sealed] at hmk
    obtain rfl := Option.some.inj hmk
    exact hout c (hnew c hc hkeys) hc n

/-- Bob's first state is stolen; he then takes his first ratchet step. -/
theorem break_in_recovery_sample :
    ((sampleStart.counted.exec sampleWorld
        [.feed .bob (latest sampleWorld .alice) (keyPair 3)]).state .bob).dhs.name ∉
      sampleWorld.keys ∧
    ∀ ck, ((sampleStart.counted.exec sampleWorld
        [.feed .bob (latest sampleWorld .alice) (keyPair 3)]).state .bob).cks = some ck →
      ∀ j, ¬ (sampleStart.session.init.state .bob).Exposes (messageKey ck j) := by
  have hkey : sampleStart.sk.IsKey := trivial
  have hrun : sampleStart.counted.Allowed sampleStart.session.init sampleRun := by decide +kernel
  have hfeed : sampleStart.counted.Allowed sampleWorld
      [.feed .bob (latest sampleWorld .alice) (keyPair 3)] := by decide +kernel
  have hnew : ((sampleStart.counted.exec sampleWorld
      [.feed .bob (latest sampleWorld .alice) (keyPair 3)]).state .bob).dhs.name ∉
    sampleWorld.keys := by decide +kernel
  exact ⟨hnew, (break_in_recovery (S := sampleStart) hkey .init hrun
    (by decide +kernel) hfeed rfl).1 hnew⟩

/-! ## Counters that wrap -/

/-- `w` is where `v` is, with more packets sent. -/
structure Covers (v w : World symbolic) : Prop where
  state : w.state = v.state
  fed : w.fed = v.fed
  keys : w.keys = v.keys
  sent : ∀ side, v.sent side ⊆ w.sent side

section
variable {S : Start symbolic} {v w : World symbolic}

theorem Covers.next (h : Covers v w) (e : Event symbolic) : Covers (v.next e) (w.next e) := by
  cases e with
  | send who plaintext aad =>
    refine ⟨?_, h.fed, h.keys, fun side m hm => ?_⟩
    · simp only [World.next, World.send, h.state]
    · simp only [World.next, World.send, h.state] at hm ⊢
      by_cases hside : side = who
      · subst hside
        rw [Function.update_self, List.mem_append] at hm ⊢
        exact hm.imp_left (h.sent side ·)
      · rw [Function.update_of_ne hside] at hm ⊢
        exact h.sent side hm
  | feed who packet fresh =>
    refine ⟨?_, ?_, ?_, h.sent⟩ <;> simp only [World.next, World.feed, h.state, h.fed, h.keys]

theorem Covers.enabled (h : Covers v w) {e : Event symbolic} (he : S.honest.enabled v e) :
    S.honest.enabled w e := by
  obtain ⟨hfresh, hhonest⟩ := he
  cases e with
  | send => exact ⟨trivial, trivial⟩
  | feed who packet fresh =>
    refine ⟨?_, List.map_subset _ (h.sent who.peer) hhonest.1, ?_⟩
    · change generates (w.state who) packet.header = true → _ ∉ w.keys
      rw [h.state, h.keys]
      exact hfresh
    · rw [h.fed]
      exact hhonest.2

theorem Covers.exec (h : Covers v w) {es : List (Event symbolic)} (hes : S.honest.Allowed v es) :
    S.honest.Allowed w es ∧ Covers (S.honest.exec v es) (S.honest.exec w es) := by
  induction es generalizing v w with
  | nil => exact ⟨trivial, h⟩
  | cons e es ih =>
    obtain ⟨hallowed, hcovers⟩ := ih (h.next e) hes.2
    exact ⟨⟨h.enabled hes.1, hallowed⟩, hcovers⟩

end

/-- Alice has sent two messages, Bob has received the first. -/
def twoSent : World symbolic :=
  (sampleWorld.feed .bob (latest sampleWorld .alice) (keyPair 3)).send .alice [8] []

/-- The same after `2 ^ 32 - 2` more messages of Alice: her counter is at 0 again. -/
def wrapped : World symbolic :=
  { twoSent with
    state := Function.update twoSent.state .alice
      { twoSent.state .alice with
        cks := (twoSent.state .alice).cks.map (chainKey · (2 ^ 32 - 2))
        ns := 0 } }

/-- One message each way. Bob has no reason to keep keys of Alice's first chain. -/
def wrappedRun : List (Event symbolic) :=
  let w₁ := wrapped.send .bob [9] []
  let w₂ := (w₁.feed .alice (latest w₁ .bob) (keyPair 4)).send .alice [10] []
  [.send .bob [9] [], .feed .alice (latest w₁ .bob) (keyPair 4), .send .alice [10] [],
    .feed .bob (latest w₂ .alice) (keyPair 5)]

/-- Bob's state is stolen. He answers; before the answer arrives, Alice's second message does, which
turns his ratchet back to her first key. -/
def stolen : World symbolic := sampleStart.honest.exec wrapped wrappedRun

def answered : World symbolic := stolen.send .bob [11] []

def lateRun : List (Event symbolic) :=
  [.feed .bob (latest twoSent .alice) (keyPair 6), .feed .alice (latest answered .bob) (keyPair 7)]

theorem wrapped_reachable : ∃ w, sampleStart.honest.Reachable w ∧ Covers wrapped w := by
  have hrun : sampleStart.honest.Allowed sampleStart.session.init (sampleRun ++
      [.feed .bob (latest sampleWorld .alice) (keyPair 3), .send .alice [8] []]) := by
    decide +kernel
  obtain ⟨ck, hck⟩ := Option.isSome_iff_exists.mp
    (by decide +kernel : (twoSent.state .alice).cks.isSome)
  have hns : (twoSent.state .alice).ns + .ofNat (2 ^ 32 - 2) = 0 := by decide +kernel
  obtain ⟨w, hw, hstate, hfed, hkeys, hsent⟩ := exists_sends (w := twoSent)
    (Machine.Reachable.init.exec hrun) hck [8] [] (2 ^ 32 - 2) fun _ _ _ _ => trivial
  refine ⟨w, hw, ?_, hfed, hkeys, hsent⟩
  rw [hstate, hns, wrapped, hck]
  rfl

/-- Without a bound on the counters: after Bob's state was stolen and he has taken a ratchet step,
Alice starts a chain whose keys are exposed. -/
theorem break_in_unrecovered : ∃ (w₁ : World symbolic) (es es' : List (Event symbolic))
    (packet : Packet symbolic) (fresh : symbolic.Secret) (ck : symbolic.Block),
    let w₂ := sampleStart.honest.exec w₁ es
    let w := sampleStart.honest.exec w₂ (.feed .bob packet fresh :: es')
    sampleStart.sk.IsKey ∧ sampleStart.honest.Reachable w₁ ∧ sampleStart.honest.Allowed w₁ es ∧
      generates (w₂.state .bob) packet.header = true ∧
      sampleStart.honest.Allowed w₂ (.feed .bob packet fresh :: es') ∧
      (w.state .alice).dhs.name ∉ w₂.keys ∧ (w.state .alice).cks = some ck ∧
      (w₁.state .bob).Exposes (messageKey ck 0) := by
  obtain ⟨w₀, hw₀, hcovers₀⟩ := wrapped_reachable
  obtain ⟨hrun, hstolen⟩ := hcovers₀.exec
    (by decide +kernel : sampleStart.honest.Allowed wrapped wrappedRun)
  obtain ⟨hsend, hanswered⟩ := hstolen.exec
    (by decide +kernel : sampleStart.honest.Allowed stolen [.send .bob [11] []])
  obtain ⟨hlate, hlast⟩ := hanswered.exec
    (by decide +kernel : sampleStart.honest.Allowed answered lateRun)
  have hcks : ((sampleStart.honest.exec answered lateRun).state .alice).cks = some
      (ckSeed (stolen.state .bob).rk (.shared (stolen.state .bob).dhs.name (keyPair 7).name)) := by
    decide +kernel
  refine ⟨_, _, _, _, _, ckSeed (stolen.state .bob).rk
    (.shared (stolen.state .bob).dhs.name (keyPair 7).name), trivial, hw₀.exec hrun, hsend, ?_,
    hlate, ?_, ?_, ?_⟩
  · rw [hanswered.state]
    decide +kernel
  · rw [hanswered.keys]
    change ((sampleStart.honest.exec _ lateRun).state .alice).dhs.name ∉ _
    rw [hlast.state]
    decide +kernel
  · change ((sampleStart.honest.exec _ lateRun).state .alice).cks = _
    rw [hlast.state]
    exact hcks
  · -- the root key was stolen, and the new output has a stolen key pair in it
    rw [RatchetState.Exposes, hstolen.state]
    exact .hmac (.expand (.extract (.known (.inl rfl)) (.cat (.dh rfl) .nil)))

end Vesper.DoubleRatchet
