import Vesper.Ratchet.Delivery
import Vesper.Ratchet.Authenticity

/-!
# What a failed `decrypt` leaves behind

`decrypt` moves the state before it authenticates. A failed call is harmless exactly when it is
rejected before the first of these moves (`RejectedEarly`): otherwise some message that the state
could decrypt is lost.
-/

namespace Vesper.DoubleRatchet
open Symbolic (Derives Sealed)

section
variable {P : Primitives} {s : RatchetState P} {header : MessageHeader} {fresh : P.Secret}

/-- Every message that `s` decrypts, `s'` decrypts to the same plaintext. -/
def Preserves (s s' : RatchetState P) : Prop :=
  ∀ header c aad p fresh, (decrypt s header c aad fresh).2 = .ok p →
    (decrypt s' header c aad fresh).2 = .ok p

/-- No key is cached for the header, and what it makes `decrypt` skip first is over the limit, or
there is no chain to skip in. -/
def RejectedEarly (s : RatchetState P) (header : MessageHeader) : Prop :=
  s.mkskipped[(header.dh.bytes.toList, header.n)]? = none ∧
    if remoteKeyChanged s header then s.nr.toNat + MAX_SKIP.toNat < header.pn.toNat
    else s.nr.toNat + MAX_SKIP.toNat < header.n.toNat ∨ s.ckr = none

instance : Decidable (RejectedEarly s header) :=
  inferInstanceAs (Decidable (_ ∧ ite ..))

/-- A call rejected early leaves the state as it was. -/
theorem RejectedEarly.advance (h : RejectedEarly s header) (fresh : P.Secret) :
    ∃ f, advance s header fresh = (s, .error f) := by
  obtain ⟨hmiss, h⟩ := h
  split at h
  · next hchanged =>
    rw [advance_changed hmiss (remoteKeyChanged_eq_true_iff.mp hchanged),
      skipMessageKeys_of_limit h]
    exact ⟨_, rfl⟩
  · next hsame =>
    rw [Bool.not_eq_true, remoteKeyChanged_eq_false_iff] at hsame
    rw [advance_same hmiss hsame]
    by_cases hlimit : s.nr.toNat + 1000 < header.n.toNat
    · exact ⟨_, advanceTo_of_limit hlimit⟩
    · obtain hckr := h.resolve_left hlimit
      exact ⟨_, advanceTo_of_no_chain hckr (by omega)⟩

theorem RejectedEarly.decrypt (h : RejectedEarly s header) (c : P.Cipher) (aad : Bytes)
    (fresh : P.Secret) : ∃ f, decrypt s header c aad fresh = (s, .error f) := by
  obtain ⟨f, hf⟩ := h.advance fresh
  exact ⟨f, by rw [decrypt_eq, hf]; rfl⟩

/-- How `advance` fails: early, or at a header whose number is over the limit of the chain that it
has just started. -/
theorem advance_error {f : Fault} (hchain : s.ckr ≠ none → s.dhr ≠ none)
    (h : (advance s header fresh).2 = .error f) :
    RejectedEarly s header ∨
      s.mkskipped[(header.dh.bytes.toList, header.n)]? = none ∧ s.dhr ≠ some header.dh ∧
        header.pn.toNat ≤ s.nr.toNat + 1000 ∧ 1000 < header.n.toNat := by
  cases hmiss : s.mkskipped[(header.dh.bytes.toList, header.n)]? with
  | some mk => simp [advance_cached hmiss] at h
  | none =>
    by_cases hdhr : s.dhr = some header.dh
    · left
      refine ⟨hmiss, ?_⟩
      rw [if_neg (by rw [Bool.not_eq_true, remoteKeyChanged_eq_false_iff]; exact hdhr)]
      by_contra hnot
      rw [not_or, Nat.not_lt] at hnot
      obtain ⟨ck, hck⟩ := Option.ne_none_iff_exists'.mp hnot.2
      rw [advance_same hmiss hdhr, advanceTo_of_chain hck hdhr hnot.1] at h
      cases h
    · by_cases hpn : s.nr.toNat + 1000 < header.pn.toNat
      · left
        exact ⟨hmiss, by rw [if_pos (remoteKeyChanged_eq_true_iff.mpr hdhr)]; exact hpn⟩
      · right
        refine ⟨rfl, hdhr, by omega, ?_⟩
        by_contra hn
        obtain ⟨s1, hs1⟩ := exists_skipMessageKeys hchain (n := header.pn) (by omega)
        rw [advance_changed hmiss hdhr, hs1] at h
        dsimp only at h
        rw [advanceTo_ratcheted (by omega)] at h
        cases h

/-- The headers that `decrypt` finds a key for are within the skip limit. -/
theorem withinSkip_of_advance {mk : P.Block} (h : (advance s header fresh).2 = .ok mk) :
    WithinSkip s header := by
  intro hmiss
  split
  · next hchanged =>
    have hdhr := remoteKeyChanged_eq_true_iff.mp hchanged
    rw [advance_changed hmiss hdhr] at h
    constructor
    · by_contra hpn
      rw [skipMessageKeys_of_limit (by rw [toNat_MAX_SKIP] at hpn; omega)] at h
      cases h
    · by_contra hn
      rcases hskip : skipMessageKeys s header.pn with ⟨s1, f | _⟩ <;> rw [hskip] at h
      · cases h
      · dsimp only at h
        rw [advanceTo_ratcheted_of_limit (by rw [toNat_MAX_SKIP] at hn; omega)] at h
        cases h
  · next hsame =>
    rw [Bool.not_eq_true, remoteKeyChanged_eq_false_iff] at hsame
    rw [advance_same hmiss hsame] at h
    by_contra hn
    rw [advanceTo_of_limit (by rw [toNat_MAX_SKIP] at hn; omega)] at h
    cases h

/-! ## Losing a message -/

/-- A header over the limit of its own chain: the ratchet step is taken all the same. -/
theorem advance_over_limit (hmiss : s.mkskipped[(header.dh.bytes.toList, header.n)]? = none)
    (hdhr : s.dhr ≠ some header.dh) (hn : 1000 < header.n.toNat) {s1 : RatchetState P}
    (hs1 : skipMessageKeys s header.pn = (s1, .ok ())) (fresh : P.Secret) :
    (advance s header fresh).1 = ratcheted s1 header.dh fresh := by
  rw [advance_changed hmiss hdhr, hs1]
  dsimp only
  rw [advanceTo_ratcheted_of_limit hn]

/-- The key of a header that carries a new ratchet key and skips nothing in the chain before. -/
theorem advance_new {d : KeyAgreementPublicKey} {n : UInt32} (hdhr : s.dhr ≠ some d)
    (hmiss : s.mkskipped[(d.bytes.toList, n)]? = none) (fresh : P.Secret) :
    (advance s ⟨d, 0, n⟩ fresh).2 =
      if n.toNat ≤ 1000 then .ok (messageKey (ckSeed s.rk (P.diffieHellman s.dhs d)) n.toNat)
      else .error (.error .skipLimitExceeded) := by
  rw [advance_changed hmiss hdhr, skipMessageKeys_of_le (by simp [UInt32.le_iff_toNat_le])]
  dsimp only
  split
  · next h => exact advanceTo_ratcheted h
  · next h => rw [advanceTo_ratcheted_of_limit (by omega)]

end

section
variable {s s' : RatchetState symbolic} {header : MessageHeader} {fresh : symbolic.Secret}
  {mk : symbolic.Block} {S : Start symbolic} {w : World symbolic} {who : Side}
  {broken : KeyAgreementPublicKey → Prop}

theorem not_preserves (h : (advance s header fresh).2 = .ok mk)
    (h' : (advance s' header fresh).2 ≠ .ok mk) : ¬ Preserves s s' := by
  intro hp
  have hok : (decrypt s header (.box mk (messageNonce header.n) [] (buildAad header [])) []
      fresh).2 = .ok [] := decrypt_ok_symbolic.mpr ⟨mk, h, rfl⟩
  obtain ⟨mk', hadv, hc⟩ := decrypt_ok_symbolic.mp (hp _ _ _ _ _ hok)
  obtain ⟨rfl, -⟩ := Sealed.box.inj hc
  exact h' hadv

/-- Three ratchet keys to choose from. -/
theorem exists_key_ne (a b : KeyAgreementPublicKey) : ∃ k, k ≠ a ∧ k ≠ b := by
  by_contra hno
  have hall : ∀ i : UInt8, (keyPair i).name = a ∨ (keyPair i).name = b := fun i => by
    by_contra hi
    rw [not_or] at hi
    exact hno ⟨_, hi⟩
  have h01 : (keyPair 0).name ≠ (keyPair 1).name := by decide
  have h02 : (keyPair 0).name ≠ (keyPair 2).name := by decide
  have h12 : (keyPair 1).name ≠ (keyPair 2).name := by decide
  rcases hall 0 with h0 | h0 <;> rcases hall 1 with h1 | h1 <;> rcases hall 2 with h2 | h2 <;>
    simp_all

variable {sk : symbolic.Block} {T : Timeline symbolic} {e r : Nat}
  {sent : List (Packet symbolic × Bytes)} {got : List (Packet symbolic)}

theorem length_dhOuts (x : Nat → symbolic.Secret) (e : Nat) : (dhOuts x e).length = e := by
  induction e with
  | zero => rfl
  | succ e ih => rw [dhOuts, List.length_cons, ih]

/-- A header over the limit of the chain it starts costs the rest of the current chain, or the
first chain when there is none yet. -/
theorem Inbox.over_limit (h : Inbox sk T e r s sent got)
    (hmiss : s.mkskipped[(header.dh.bytes.toList, header.n)]? = none)
    (hdhr : s.dhr ≠ some header.dh) (hpn : header.pn.toNat ≤ s.nr.toNat + 1000)
    (hn : 1000 < header.n.toNat) (fresh : symbolic.Secret) :
    ¬ Preserves s (advance s header fresh).1 := by
  have hs := h.synced
  obtain ⟨s1, hs1, hcache, hrk, hdhs, -⟩ := hs.skipMessageKeys hpn
  have hadv := advance_over_limit hmiss hdhr hn hs1 fresh
  have hskip := skipMessageKeys_frame s header.pn
  rw [hadv]
  have hdhr' : (ratcheted s1 header.dh fresh).dhr = some header.dh := rfl
  have hlen_e := length_dhOuts T.x e
  -- any chain started now grows from a later root than the chains of `s`
  have hlater : ∀ (D : symbolic.Block) es i j, es.length ≤ e + 1 → es ≠ [] →
      messageKey (ckSeed (ratcheted s1 header.dh fresh).rk D) i ≠
        messageKey (chainSeed sk es) j := by
    intro D es i j hlen hes heq
    have hseed : ckSeed (ratcheted s1 header.dh fresh).rk D =
        chainSeed sk (D :: symbolic.diffieHellman fresh header.dh ::
          symbolic.diffieHellman s1.dhs header.dh :: dhOuts T.x e) := by
      rw [ratcheted, hrk, hs.rk]
      rfl
    rw [hseed] at heq
    obtain ⟨-, rfl⟩ := messageKey_inj (List.cons_ne_nil _ _) hes heq
    simp only [List.length_cons] at hlen
    omega
  by_cases he : e ≤ 1
  · have hempty : ∀ q : SkippedKey, s.mkskipped[q]? = none := by
      intro q
      by_contra hq
      obtain ⟨c, -, hpast⟩ := h.cached q hq
      have hdrawn := h.drawn
      rw [T.unsent _ (.inl (by omega))] at hdrawn
      simp only [Past] at hpast
      omega
    have hckr : s.ckr = none := by rw [hs.ckr, if_pos he]
    have hempty' : ∀ q : SkippedKey, (ratcheted s1 header.dh fresh).mkskipped[q]? = none := by
      intro q
      change s1.mkskipped[q]? = none
      rw [hcache, closed, hckr]
      exact hempty q
    obtain ⟨k, hk, hk'⟩ := exists_key_ne header.dh (s.dhr.getD header.dh)
    have hnew : s.dhr ≠ some k := fun heq => hk' (by rw [heq]; rfl)
    have hkey := advance_new hnew (hempty (k.bytes.toList, 0)) fresh
    refine not_preserves hkey ?_
    rw [advance_new (by rw [hdhr']; simpa using hk.symm) (hempty' _), if_pos (by decide)]
    intro heq
    have hseed : ckSeed s.rk (symbolic.diffieHellman s.dhs k) =
        chainSeed sk (symbolic.diffieHellman s.dhs k :: dhOuts T.x e) := by
      rw [hs.rk]
      rfl
    refine hlater _ (symbolic.diffieHellman s.dhs k :: dhOuts T.x e) 0 0 ?_
      (List.cons_ne_nil _ _) (hseed ▸ Except.ok.inj heq)
    rw [List.length_cons]
    omega
  · have hckr := hs.ckr
    have hcur := hs.dhr
    rw [if_neg he] at hckr
    rw [if_neg (by omega)] at hcur
    generalize hd : symbolic.publicKey (T.x (e - 1)) = d at hcur
    have hne : header.dh ≠ d := fun heq => hdhr (by rw [hcur, heq])
    have hr : s.nr.toNat = r := by
      rw [hs.nr, toNat_ofNat_of_lt (Nat.lt_of_le_of_lt h.drawn (T.small _))]
    have hlt := header.pn.toNat_lt
    have hlt' := s.nr.toNat_lt
    obtain ⟨m, hm⟩ : ∃ m : UInt32, m.toNat = max r header.pn.toNat :=
      ⟨if s.nr ≤ header.pn then header.pn else s.nr, by
        simp only [UInt32.le_iff_toNat_le]
        split <;> omega⟩
    have hmiss' : s.mkskipped[(d.bytes.toList, m)]? = none := by
      have hle := h.epoch
      rw [← hd]
      exact h.miss (by omega) (by simp only [Past]; omega)
    have hmiss'' : (ratcheted s1 header.dh fresh).mkskipped[(d.bytes.toList, m)]? = none := by
      change s1.mkskipped[(d.bytes.toList, m)]? = none
      simp only [hcache, closed, hckr, hcur]
      rw [getElem?_fill (by omega), if_neg (by simp only; omega)]
      exact hmiss'
    have hkey : (advance s ⟨d, 0, m⟩ fresh).2 =
        .ok (messageKey (seed sk T.x (e - 1)) (r + (m.toNat - s.nr.toNat))) := by
      rw [advance_same hmiss' hcur]
      dsimp only
      rw [advanceTo_of_chain hckr hcur (by omega), messageKey_chainKey]
    refine not_preserves hkey ?_
    rw [advance_new (by rw [hdhr']; simpa using hne) hmiss'']
    split
    · intro heq
      have hlen := length_dhOuts T.x (e - 1)
      refine hlater _ (dhOuts T.x (e - 1)) _ _ (by omega) ?_ (Except.ok.inj heq)
      exact fun hnil => by rw [hnil, List.length_nil] at hlen; omega
    · simp

/-! ## Runs whose failed calls are rejected early -/

/-- A call of `decrypt` succeeds or is rejected early. -/
def FailsEarly (w : World symbolic) : Event symbolic → Prop
  | .send .. => True
  | .feed who packet fresh =>
    (decrypt (w.state who) packet.header packet.ciphertext packet.aad fresh).2.isOk ∨
      RejectedEarly (w.state who) packet.header

/-- A call rejected early only counts as fed. -/
theorem feed_rejected {packet : Packet symbolic}
    (h : RejectedEarly (w.state who) packet.header) (fresh : symbolic.Secret) :
    w.feed who packet fresh =
      { w with fed := Function.update w.fed who (w.fed who ++ [packet]) } := by
  obtain ⟨f, hdec⟩ := h.decrypt packet.ciphertext packet.aad fresh
  have hgen : generates (w.state who) packet.header = false := by
    obtain ⟨-, h⟩ := h
    unfold generates
    split at h
    · rw [skipMessageKeys_of_limit h]
      simp [Except.isOk, Except.toBool]
    · next hsame => simp [hsame]
  simp only [World.feed, hdec, hgen, List.append_nil, Function.update_eq_self,
    Bool.false_eq_true, if_false]

theorem Matched.feed_rejected {T : Timeline symbolic} {ep rp : Side → Nat}
    (h : Matched S T ep rp w) {packet : Packet symbolic}
    (hrej : RejectedEarly (w.state who) packet.header) (fresh : symbolic.Secret) :
    Matched S T ep rp (w.feed who packet fresh) := by
  have hfed := fed_feed h.fed who packet fresh
  rw [DoubleRatchet.feed_rejected hrej] at hfed ⊢
  exact ⟨h.parity, h.near, h.keys, h.inbox, hfed, h.outbox⟩

theorem length_sent_le (e : Event symbolic) (who : Side) :
    (w.sent who).length ≤ ((w.next e).sent who).length := by
  cases e with
  | send side plaintext aad =>
    change _ ≤ ((w.send side plaintext aad).sent who).length
    by_cases hside : who = side
    · subst hside
      simp [World.send]
    · simp [World.send, Function.update_of_ne hside]
  | feed => exact Nat.le_refl _

/-- `encrypt` fails only without a sending chain, and then does nothing. -/
theorem send_error {plaintext aad : Bytes} {f : Fault}
    (h : (encrypt (w.state who) plaintext aad).2 = .error f) : w.send who plaintext aad = w := by
  cases hcks : (w.state who).cks with
  | some ck => simp [encrypt_symbolic hcks] at h
  | none =>
    simp only [World.send, encrypt_of_no_chain hcks, List.append_nil, Function.update_eq_self]

/-- As long as the counters do not wrap, the parties stay matched. -/
theorem matched_of_failsEarly (hsk : ¬ Derives broken S.sk)
    (hw : ((S.session.restrict (Hostile broken)).restrict FailsEarly).Reachable w)
    (hlen : ∀ side, (w.sent side).length < 2 ^ 32) : ∃ T ep rp, Matched S T ep rp w := by
  revert hlen
  refine Machine.Reachable.invariant
    (M := (S.session.restrict (Hostile broken)).restrict FailsEarly)
    (I := fun w => (∀ side, (w.sent side).length < 2 ^ 32) → ∃ T ep rp, Matched S T ep rp w)
    (fun _ => ⟨_, _, _, S.matched⟩) ?_ hw
  rintro w e hreach ih ⟨⟨hfresh, hhost⟩, hearly⟩ hlen
  obtain ⟨T, ep, rp, h⟩ := ih fun side =>
    Nat.lt_of_le_of_lt (length_sent_le e side) (hlen side)
  cases e with
  | send who plaintext aad =>
    change ∀ side, ((w.send who plaintext aad).sent side).length < 2 ^ 32 at hlen
    change ∃ T ep rp, Matched S T ep rp (w.send who plaintext aad)
    cases henc : (encrypt (w.state who) plaintext aad).2 with
    | error => exact ⟨T, ep, rp, by rw [send_error henc]; exact h⟩
    | ok a =>
      have hwho := hlen who
      have hcount := (h.outbox who).count
      simp only [World.send, henc, Function.update_self, List.length_append,
        List.length_singleton] at hwho
      obtain ⟨T', -, h'⟩ := h.send (by rw [henc]; rfl) (by
        rw [(h.inbox who).synced.ns, toNat_ofNat_of_lt (T.small _)]
        omega)
      exact ⟨T', ep, rp, h'⟩
  | feed who packet fresh =>
    rcases hearly with hok | hrej
    · cases hdec : (decrypt (w.state who) packet.header packet.ciphertext packet.aad fresh).2 with
      | error => simp [hdec, Except.isOk, Except.toBool] at hok
      | ok plaintext =>
        obtain ⟨hm, hnew⟩ := decrypt_authentic hsk hreach.of_restrict ⟨hfresh, hhost⟩ hdec
        obtain ⟨mk, hadv, -⟩ := decrypt_ok_symbolic.mp hdec
        obtain ⟨T', ep', rp', -, -, h'⟩ := (h.feed symbolic_dhCommutes symbolic_aeadInverts hm
          hnew (withinSkip_of_advance hadv) hfresh).2
        exact ⟨T', ep', rp', h'⟩
    · exact ⟨T, ep, rp, h.feed_rejected hrej fresh⟩

/-- **Atomicity**: in a run whose failed calls are rejected early, a call that is rejected early
leaves the state as it was, and any other call, failed or not, costs a message. -/
theorem decrypt_atomic_iff {c : symbolic.Cipher} {aad : Bytes} (hsk : ¬ Derives broken S.sk)
    (hw : ((S.session.restrict (Hostile broken)).restrict FailsEarly).Reachable w) :
    (RejectedEarly (w.state who) header →
      (decrypt (w.state who) header c aad fresh).1 = w.state who ∧
        Preserves (w.state who) (decrypt (w.state who) header c aad fresh).1) ∧
    ((∀ side, (w.sent side).length < 2 ^ 32) →
      Preserves (w.state who) (decrypt (w.state who) header c aad fresh).1 →
        RejectedEarly (w.state who) header) := by
  constructor
  · intro hrej
    obtain ⟨f', hdec⟩ := hrej.decrypt c aad fresh
    rw [hdec]
    exact ⟨rfl, fun _ _ _ _ _ hok => hok⟩
  · intro hlen hpres
    have hdec : (decrypt (w.state who) header c aad fresh).1 =
        (advance (w.state who) header fresh).1 := by rw [decrypt_eq]
    rw [hdec] at hpres
    cases hadv : (advance (w.state who) header fresh).2 with
    | ok mk =>
      -- the header itself, under a genuine ciphertext, is lost
      obtain ⟨ds, i, r, -, ht⟩ := (authentic_of_reachable hw.of_restrict).tracked who
      obtain ⟨⟨ds', i', r', -, ht'⟩, -⟩ := ht.advance header fresh
      have hspent := (ht'.advance header fresh).2
      exact absurd hpres (not_preserves hadv fun hadv' => hspent mk hadv' (.inr hadv))
    | error f' =>
      obtain ⟨T, ep, rp, h⟩ := matched_of_failsEarly hsk hw hlen
      have hin := h.inbox who
      have hchain : (w.state who).ckr ≠ none → (w.state who).dhr ≠ none := by
        rw [hin.synced.ckr, hin.synced.dhr]
        intro hckr
        have he : ¬ ep who ≤ 1 := fun he => hckr (if_pos he)
        rw [if_neg (by omega)]
        simp
      rcases advance_error hchain hadv with hrej | ⟨hmiss, hdhr, hpn, hn⟩
      · exact hrej
      · exact absurd hpres (hin.over_limit hmiss hdhr hpn hn fresh)

end

theorem decrypt_atomic_iff_sample : ¬ Preserves (sampleWorld.state .bob)
    (decrypt (sampleWorld.state .bob) (latest sampleWorld .alice).header (.raw []) []
      (keyPair 3)).1 := by
  intro hpres
  have hall : ((sampleStart.session.restrict (Hostile fun _ => True)).restrict FailsEarly).Allowed
      sampleStart.session.init sampleRun := ⟨⟨⟨trivial, trivial⟩, trivial⟩, trivial⟩
  have hlen : ∀ side, (sampleWorld.sent side).length < 2 ^ 32 := by
    intro side
    cases side <;> decide +kernel
  have hrej : RejectedEarly (sampleWorld.state .bob) (latest sampleWorld .alice).header :=
    (decrypt_atomic_iff Derives.not_atom (Machine.Reachable.init.exec hall)).2 hlen hpres
  revert hrej
  decide +kernel

/-- A bad tag under a genuine header: the genuine packet no longer opens after it. -/
theorem decrypt_not_atomic :
    let s := sampleWorld.state .bob
    let packet := latest sampleWorld .alice
    let forged := decrypt s packet.header (.raw (List.replicate 32 0)) packet.aad (keyPair 3)
    sampleStart.session.Reachable sampleWorld ∧
      forged.2 = .error (.error .decryptionFailed) ∧
      (decrypt s packet.header packet.ciphertext packet.aad (keyPair 4)).2 = .ok [7] ∧
      (decrypt forged.1 packet.header packet.ciphertext packet.aad (keyPair 4)).2 =
        .error (.error .decryptionFailed) :=
  ⟨Machine.Reachable.init.exec (by decide +kernel : Machine.Allowed _ _ sampleRun),
    by decide +kernel, by decide +kernel, by decide +kernel⟩

end Vesper.DoubleRatchet
