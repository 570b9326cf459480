import Vesper.Ratchet.Epochs
import Vesper.Crypto.Symbolic

/-!
# Delivery

Over a network that delivers genuine packets, in any order and each at most once, every `decrypt`
returns the plaintext given to the matching `encrypt`. The invariant `Matched` ties both states to
one `Timeline` of ratchet keys: every undelivered packet that a receiver is past is in its cache
under the right key.
-/

namespace Vesper.DoubleRatchet
variable {P : Primitives} {sk : P.Block}

/-! ## Timelines -/

/-- The ratchet keys of a session so far, `x 0` to `x top`, and the number of messages sent under
each. -/
structure Timeline (P : Primitives) where
  x : Nat → P.Secret
  cnt : Nat → Nat
  top : Nat
  distinct : ∀ i ≤ top, ∀ j ≤ top, P.publicKey (x i) = P.publicKey (x j) → i = j
  unsent : ∀ e, e = 0 ∨ top < e → cnt e = 0
  small : ∀ e, cnt e < 2 ^ 32

/-- One more message of chain `e`. -/
def Timeline.bump (T : Timeline P) (e : Nat) (h0 : e ≠ 0) (he : e ≤ T.top)
    (hlt : T.cnt e + 1 < 2 ^ 32) : Timeline P where
  x := T.x
  cnt := Function.update T.cnt e (T.cnt e + 1)
  top := T.top
  distinct := T.distinct
  unsent c hc := by rw [Function.update_of_ne (by omega), T.unsent c hc]
  small c := by
    by_cases hc : c = e
    · rw [hc, Function.update_self]; exact hlt
    · rw [Function.update_of_ne hc]; exact T.small c

/-- A new ratchet key. -/
def Timeline.extend (T : Timeline P) (fresh : P.Secret)
    (hf : ∀ i ≤ T.top, P.publicKey (T.x i) ≠ P.publicKey fresh) : Timeline P where
  x := Function.update T.x (T.top + 1) fresh
  cnt := T.cnt
  top := T.top + 1
  distinct i hi j hj hij := by
    by_cases h1 : i = T.top + 1 <;> by_cases h2 : j = T.top + 1
    · omega
    · rw [h1, Function.update_self, Function.update_of_ne h2] at hij
      exact absurd hij.symm (hf j (by omega))
    · rw [h2, Function.update_self, Function.update_of_ne h1] at hij
      exact absurd hij (hf i (by omega))
    · rw [Function.update_of_ne h1, Function.update_of_ne h2] at hij
      exact T.distinct i (by omega) j (by omega) hij
  unsent c hc := T.unsent c (hc.imp_right (by omega))
  small := T.small

theorem Timeline.extend_x {T : Timeline P} {fresh hf} {i : Nat} (hi : i ≤ T.top) :
    (T.extend fresh hf).x i = T.x i := Function.update_of_ne (by omega) ..

/-- `T'` continues `T`: the ratchet keys so far stay. -/
structure Timeline.Before (T T' : Timeline P) : Prop where
  top : T.top ≤ T'.top
  x : ∀ i ≤ T.top, T.x i = T'.x i

theorem Timeline.Before.refl (T : Timeline P) : T.Before T := ⟨Nat.le_refl _, fun _ _ => rfl⟩

theorem Timeline.Before.trans {T T' T'' : Timeline P} (h : T.Before T') (h' : T'.Before T'') :
    T.Before T'' :=
  ⟨Nat.le_trans h.top h'.top, fun i hi => (h.x i hi).trans (h'.x i (Nat.le_trans hi h.top))⟩

theorem Timeline.before_extend {T : Timeline P} {fresh : P.Secret} {hf} :
    T.Before (T.extend fresh hf) := ⟨Nat.le_succ _, fun _ hi => (Timeline.extend_x hi).symm⟩

/-! ## One receiver -/

/-- A receiver at epoch `e` that has drawn the keys below `r` of chain `e - 1` is past message `n`
of chain `c`. -/
def Past (e r c n : Nat) : Prop := c + 1 < e ∨ c + 1 = e ∧ n < r

/-- A receiver in step with the timeline: its cache holds keys of messages it is past, and among
them those of all packets it has not accepted. -/
structure Inbox (sk : P.Block) (T : Timeline P) (e r : Nat) (s : RatchetState P)
    (sent : List (Packet P × Bytes)) (got : List (Packet P)) : Prop where
  synced : Synced sk T.x T.cnt e r s
  epoch : e ≤ T.top
  drawn : r ≤ T.cnt (e - 1)
  cached : ∀ q : SkippedKey, s.mkskipped[q]? ≠ none →
    ∃ c, q.1 = (P.publicKey (T.x c)).bytes.toList ∧ Past e r c q.2.toNat
  pending : ∀ m ∈ sent, m.1 ∉ got → ∀ c, m.1.header.dh = P.publicKey (T.x c) →
    Past e r c m.1.header.n.toNat →
    s.mkskipped[(m.1.header.dh.bytes.toList, m.1.header.n)]? =
      some (messageKey (seed sk T.x c) m.1.header.n.toNat)

/-- The packets a sender at epoch `e` has released. -/
structure Outbox (sk : P.Block) (T : Timeline P) (e : Nat) (sent : List (Packet P × Bytes)) :
    Prop where
  packets : ∀ m ∈ sent, ∃ c n, c % 2 = e % 2 ∧ c ≤ e ∧ n < T.cnt c ∧ IsPacket sk T.x T.cnt c n m
  distinct : ∀ m ∈ sent, ∀ m' ∈ sent,
    m.1.header.dh = m'.1.header.dh → m.1.header.n = m'.1.header.n → m = m'
  count : T.cnt e ≤ sent.length

variable {T : Timeline P} {e r c n : Nat} {s : RatchetState P} {m : Packet P × Bytes}
  {sent : List (Packet P × Bytes)} {got : List (Packet P)} {fresh : P.Secret}

theorem Inbox.miss (h : Inbox sk T e r s sent got) (hc : c ≤ T.top) {k : UInt32}
    (hpast : ¬ Past e r c k.toNat) :
    s.mkskipped[((P.publicKey (T.x c)).bytes.toList, k)]? = none := by
  by_contra hne
  obtain ⟨c', hdh, hp⟩ := h.cached _ hne
  have hle := h.epoch
  have hc' : c' ≤ T.top := by rcases hp with hp | hp <;> omega
  rw [T.distinct c hc c' hc' (dhKey_inj.mp hdh)] at hpast
  exact hpast hp

/-- Different packets are cached under different keys. -/
theorem slot_ne (hsent : ∀ m ∈ sent, ∀ m' ∈ sent,
      m.1.header.dh = m'.1.header.dh → m.1.header.n = m'.1.header.n → m = m')
    {m' : Packet P × Bytes} (hm : m ∈ sent) (hm' : m' ∈ sent) (hne : m'.1 ∉ got ++ [m.1]) :
    (m.1.header.dh.bytes.toList, m.1.header.n) ≠ (m'.1.header.dh.bytes.toList, m'.1.header.n) := by
  intro heq
  obtain ⟨hdh, hn⟩ := Prod.mk.inj heq
  have := hsent m hm m' hm' (dhKey_inj.mp hdh) hn
  simp [this] at hne

/-- A packet that the receiver is past is opened with its cached key. -/
theorem Inbox.feed_past (h : Inbox sk T e r s sent got) (fresh : P.Secret)
    (hsent : ∀ m ∈ sent, ∀ m' ∈ sent,
      m.1.header.dh = m'.1.header.dh → m.1.header.n = m'.1.header.n → m = m')
    (hm : m ∈ sent) (hgot : m.1 ∉ got) (hdh : m.1.header.dh = P.publicKey (T.x c))
    (hpast : Past e r c m.1.header.n.toNat) :
    ∃ s', advance s m.1.header fresh = (s', .ok (messageKey (seed sk T.x c) m.1.header.n.toNat)) ∧
      Inbox sk T e r s' sent (got ++ [m.1]) := by
  refine ⟨_, advance_cached (h.pending m hm hgot c hdh hpast) fresh,
    ⟨h.synced.1, h.synced.2, h.synced.3, h.synced.4, h.synced.5, h.synced.6, h.synced.7,
      h.synced.8⟩, h.epoch, h.drawn, ?_, ?_⟩
  · intro q hq
    refine h.cached q fun hnone => hq ?_
    simp [Std.ExtTreeMap.getElem?_erase, hnone]
  · intro m' hm' hgot' c' hdh' hpast'
    have hne := slot_ne hsent hm hm' hgot'
    rw [Std.ExtTreeMap.getElem?_erase,
      if_neg (by simpa [Std.LawfulEqCmp.compare_eq_iff_eq] using hne)]
    exact h.pending m' hm' (fun hmem => hgot' (List.mem_append_left _ hmem)) c' hdh' hpast'

/-- A packet of the chain being received that is still ahead: the keys up to its number are drawn,
the earlier ones go to the cache. -/
theorem Inbox.feed_ahead (h : Inbox sk T e r s sent got) (fresh : P.Secret)
    (hsent : ∀ m ∈ sent, ∀ m' ∈ sent,
      m.1.header.dh = m'.1.header.dh → m.1.header.n = m'.1.header.n → m = m')
    (hm : m ∈ sent) (hdh : m.1.header.dh = P.publicKey (T.x (e - 1))) (he : 2 ≤ e)
    (hr : r ≤ m.1.header.n.toNat) (hcnt : m.1.header.n.toNat < T.cnt (e - 1))
    (hskip : m.1.header.n.toNat ≤ s.nr.toNat + 1000) :
    ∃ s', advance s m.1.header fresh =
        (s', .ok (messageKey (seed sk T.x (e - 1)) m.1.header.n.toNat)) ∧
      Inbox sk T e (m.1.header.n.toNat + 1) s' sent (got ++ [m.1]) := by
  have hlt := m.1.header.n.toNat_lt
  have hle := h.epoch
  have hmiss : s.mkskipped[(m.1.header.dh.bytes.toList, m.1.header.n)]? = none := by
    rw [hdh]
    exact h.miss (by omega) (by simp only [Past]; omega)
  obtain ⟨s', hadv, hs', hcache⟩ := h.synced.advance_same fresh he hmiss hdh
    UInt32.ofNat_toNat.symm (.inr ⟨hr, hlt⟩) hskip
  have hget : ∀ q : SkippedKey, s'.mkskipped[q]? = _ :=
    fun q => hcache ▸ getElem?_fill_chain hr hlt q
  refine ⟨s', hadv, hs', hle, hcnt, ?_, ?_⟩
  · intro q hq
    rw [hget] at hq
    split at hq
    · next hfill => exact ⟨e - 1, by rw [hfill.1, hdh], by simp only [Past]; omega⟩
    · obtain ⟨c, hc, hpast⟩ := h.cached q hq
      exact ⟨c, hc, by simp only [Past] at hpast ⊢; omega⟩
  · intro m' hm' hgot' c hdh' hpast
    have hne := slot_ne hsent hm hm' hgot'
    have hgot : m'.1 ∉ got := fun hmem => hgot' (List.mem_append_left _ hmem)
    rw [hget]
    by_cases hc : c = e - 1
    · subst hc
      have hn : m'.1.header.n.toNat ≠ m.1.header.n.toNat := fun hn =>
        hne (by rw [hdh, hdh', UInt32.toNat_inj.mp hn])
      have hlt' : m'.1.header.n.toNat < m.1.header.n.toNat := by
        simp only [Past] at hpast
        omega
      by_cases hr' : r ≤ m'.1.header.n.toNat
      · rw [if_pos ⟨by rw [hdh, hdh'], hr', hlt'⟩]
      · rw [if_neg fun hfill => hr' hfill.2.1]
        exact h.pending m' hm' hgot _ hdh' (by simp only [Past]; omega)
    · rw [if_neg]
      · exact h.pending m' hm' hgot c hdh' (by simp only [Past] at hpast ⊢; omega)
      · rintro ⟨hfill, -⟩
        rw [dhKey_inj, hdh, hdh'] at hfill
        exact hc (T.distinct c (by simp only [Past] at hpast; omega) _ (by omega) hfill)

/-- The ratchet step: the rest of the chain being received goes to the cache, and the receiver moves
two epochs on. -/
theorem Inbox.ratchet (hcomm : DhCommutes P) (h : Inbox sk T e r s sent got)
    (hpeer : ∀ m ∈ sent, ∀ c ≤ T.top, m.1.header.dh = P.publicKey (T.x c) →
      c ≠ e ∧ m.1.header.n.toNat < T.cnt c)
    (htop : T.top = e + 1) {pn : UInt32} (hpn : pn = .ofNat (T.cnt (e - 1)))
    (hskip : pn.toNat ≤ s.nr.toNat + 1000)
    (hf : ∀ i ≤ T.top, P.publicKey (T.x i) ≠ P.publicKey fresh) :
    ∃ s1, skipMessageKeys s pn = (s1, .ok ()) ∧
      Inbox sk (T.extend fresh hf) (e + 2) 0
        (ratcheted s1 (P.publicKey (T.x (e + 1))) fresh) sent got := by
  obtain ⟨s1, hs1, hcache, hrk, hdhs, hns⟩ := h.synced.skipMessageKeys hskip
  have hold : ∀ i ≤ e + 1, (T.extend fresh hf).x i = T.x i :=
    fun i hi => Timeline.extend_x (by omega)
  have hfresh : (T.extend fresh hf).x (e + 2) = fresh := by
    simp [Timeline.extend, htop]
  have hclosed : ∀ q : SkippedKey,
      (ratcheted s1 (P.publicKey (T.x (e + 1))) fresh).mkskipped[q]? = _ :=
    fun q => hcache ▸ hpn ▸ h.synced.getElem?_closed h.drawn (T.small _) q
  refine ⟨s1, hs1, ?_, by simp only [Timeline.extend]; omega, Nat.zero_le _, ?_, ?_⟩
  · -- only the root key, the key pair and the send counter enter the ratchet step
    have hs := h.synced.ratcheted hcomm (fun i hi => (hold i hi).symm) hfresh
      (T.unsent _ (.inr (by omega)))
    simp only [ratcheted, hrk, hdhs, hns] at hs ⊢
    exact ⟨hs.1, hs.2, hs.3, hs.4, hs.5, hs.6, hs.7, hs.8⟩
  · intro q hq
    rw [hclosed] at hq
    split at hq
    · next hfill => exact ⟨e - 1, by rw [hfill.2.1, hold _ (by omega)], .inl (by omega)⟩
    · obtain ⟨c, hc, hpast⟩ := h.cached q hq
      have hce : c + 1 < e + 2 := by simp only [Past] at hpast; omega
      exact ⟨c, by rw [hc, hold _ (by omega)], .inl hce⟩
  · intro m hm hgot c hdh hpast
    have hce : c ≤ e := by simp only [Past] at hpast; omega
    rw [hold c (by omega)] at hdh
    rw [seed_congr fun i hi => hold i (by omega), hclosed]
    obtain ⟨hc, hn⟩ := hpeer m hm c (by omega) hdh
    by_cases hfill : c = e - 1 ∧ r ≤ m.1.header.n.toNat
    · obtain ⟨rfl, hr⟩ := hfill
      have he : 2 ≤ e := by
        by_contra he
        rw [T.unsent _ (.inl (by omega))] at hn
        omega
      rw [if_pos ⟨he, by rw [hdh], hr, hn⟩]
    · rw [if_neg]
      · exact h.pending m hm hgot c hdh (by simp only [Past]; omega)
      · rintro ⟨he, hq, hr, -⟩
        rw [dhKey_inj, hdh] at hq
        exact hfill ⟨T.distinct _ (by omega) _ (by omega) hq, hr⟩

/-- The header of a packet of the next chain. -/
theorem Inbox.next (h : Inbox sk T e r s sent got)
    (hdh : m.1.header.dh = P.publicKey (T.x (e + 1))) (htop : T.top = e + 1) :
    s.dhr ≠ some m.1.header.dh ∧
      s.mkskipped[(m.1.header.dh.bytes.toList, m.1.header.n)]? = none := by
  constructor
  · rw [h.synced.dhr, hdh]
    split
    · simp
    · intro heq
      have := T.distinct _ (by omega) _ (by omega) (Option.some.inj heq)
      omega
  · rw [hdh]
    exact h.miss (by omega) (by simp only [Past]; omega)

/-- A packet of the next chain: after the ratchet step it is one of the chain being received. -/
theorem Inbox.feed_next (hcomm : DhCommutes P) (h : Inbox sk T e r s sent got)
    (hsent : ∀ m ∈ sent, ∀ m' ∈ sent,
      m.1.header.dh = m'.1.header.dh → m.1.header.n = m'.1.header.n → m = m')
    (hpeer : ∀ m ∈ sent, ∀ c ≤ T.top, m.1.header.dh = P.publicKey (T.x c) →
      c ≠ e ∧ m.1.header.n.toNat < T.cnt c)
    (hm : m ∈ sent) (hdh : m.1.header.dh = P.publicKey (T.x (e + 1))) (htop : T.top = e + 1)
    (hpn : m.1.header.pn = .ofNat (T.cnt (e - 1)))
    (hskip : m.1.header.pn.toNat ≤ s.nr.toNat + 1000) (hn : m.1.header.n.toNat ≤ 1000)
    (hf : ∀ i ≤ T.top, P.publicKey (T.x i) ≠ P.publicKey fresh) :
    ∃ s', advance s m.1.header fresh =
        (s', .ok (messageKey (seed sk T.x (e + 1)) m.1.header.n.toNat)) ∧
      Inbox sk (T.extend fresh hf) (e + 2) (m.1.header.n.toNat + 1) s' sent (got ++ [m.1]) := by
  have hold : ∀ i ≤ e + 1, (T.extend fresh hf).x i = T.x i :=
    fun i hi => Timeline.extend_x (by omega)
  obtain ⟨hnew, hmiss⟩ := h.next hdh htop
  obtain ⟨s1, hs1, hin⟩ := h.ratchet hcomm hpeer htop hpn hskip hf
  have hdh' : m.1.header.dh = P.publicKey ((T.extend fresh hf).x (e + 2 - 1)) := by
    rw [hdh]
    exact congrArg P.publicKey (hold _ (Nat.le_refl _)).symm
  obtain ⟨s', hadv, hin'⟩ := hin.feed_ahead fresh hsent hm hdh' (by omega) (Nat.zero_le _)
    (hpeer m hm (e + 1) (by omega) hdh).2 (Nat.le_add_left_of_le hn)
  have hmiss' : (ratcheted s1 m.1.header.dh fresh).mkskipped[(m.1.header.dh.bytes.toList,
      m.1.header.n)]? = none := by
    have hin'' := hin.miss (c := e + 1) (k := m.1.header.n)
      (by simp only [Timeline.extend]; omega) (by simp only [Past]; omega)
    rwa [hold _ (Nat.le_refl _), ← hdh] at hin''
  refine ⟨s', ?_, hin'⟩
  rw [← hdh, advance_same hmiss' rfl] at hadv
  rw [advance_changed hmiss hnew, hs1]
  dsimp only
  rw [hadv]
  exact congrArg (fun b => (s', Except.ok (messageKey b _))) (seed_congr hold)

/-! ## Both parties -/

theorem Outbox.at (h : Outbox sk T e sent) (he : e ≤ T.top) (hm : m ∈ sent) (hc : c ≤ T.top)
    (hdh : m.1.header.dh = P.publicKey (T.x c)) :
    c % 2 = e % 2 ∧ c ≤ e ∧ m.1.header.n.toNat < T.cnt c ∧
      IsPacket sk T.x T.cnt c m.1.header.n.toNat m := by
  obtain ⟨c', n, hpar, hle, hlt, hp⟩ := h.packets m hm
  obtain rfl := T.distinct c hc c' (by omega) (hdh.symm.trans hp.dh)
  have hn : m.1.header.n.toNat = n := by
    rw [hp.num, toNat_ofNat_of_lt (Nat.lt_trans hlt (T.small c))]
  exact ⟨hpar, hle, hn ▸ hlt, hn ▸ hp⟩

/-- Both parties in step with one timeline, at most one epoch apart. -/
structure Matched (S : Start P) (T : Timeline P) (ep rp : Side → Nat) (w : World P) : Prop where
  parity : ∀ who, ep who % 2 ≠ ep (Side.peer who) % 2
  near : ∀ who, T.top ≤ ep who + 1
  keys : ∀ i ≤ T.top, P.publicKey (T.x i) ∈ w.keys
  inbox : ∀ who, Inbox S.sk T (ep who) (rp who) (w.state who) (w.sent who.peer)
    ((w.accepted who).map Prod.fst)
  fed : ∀ who, ∀ m ∈ w.accepted who, m.1 ∈ w.fed who
  outbox : ∀ who, Outbox S.sk T (ep who) (w.sent who)

variable {S : Start P} {ep rp : Side → Nat} {w : World P} {who : Side}

/-- The timeline of a session that starts. -/
def Start.timeline (S : Start P) : Timeline P where
  x e := if e = 0 then S.spk else S.ephemeral
  cnt _ := 0
  top := 1
  distinct i hi j hj hij := by
    have hne := S.distinct
    by_cases h1 : i = 0 <;> by_cases h2 : j = 0 <;> simp_all
    omega
  unsent _ _ := rfl
  small _ := by decide

theorem Start.matched (S : Start P) :
    Matched S S.timeline (fun | .alice => 1 | .bob => 0) (fun _ => 0) S.session.init := by
  have halice := Synced.of_initSender (x := S.timeline.x) S.init (fun _ => rfl)
  constructor
  · intro who; cases who <;> decide
  · intro who; cases who <;> simp [Start.timeline]
  · intro i hi
    simp only [Start.timeline, Start.session] at hi ⊢
    split <;> simp
  · intro who
    cases who with
    | alice =>
      refine ⟨halice.1, Nat.le_refl _, Nat.le_refl _, ?_, by simp [Start.session]⟩
      simp [Start.session, halice.2]
    | bob =>
      refine ⟨Synced.of_initReceiver fun _ => rfl, Nat.zero_le _, Nat.le_refl _, ?_,
        by simp [Start.session]⟩
      simp [Start.session, initReceiver]
  · simp [Start.session]
  · intro who
    constructor <;> simp [Start.session, Start.timeline]

theorem Inbox.bump (h : Inbox sk T e r s sent got) {E : Nat} {h0 he hlt} {s' : RatchetState P}
    (hs : Synced sk T.x (T.bump E h0 he hlt).cnt e r s') (hskipped : s'.mkskipped = s.mkskipped) :
    Inbox sk (T.bump E h0 he hlt) e r s' sent got := by
  refine ⟨hs, h.epoch, ?_, by rw [hskipped]; exact h.cached, by rw [hskipped]; exact h.pending⟩
  have hr := h.drawn
  by_cases hE : e - 1 = E
  · simp only [Timeline.bump, hE, Function.update_self] at hr ⊢
    omega
  · simpa only [Timeline.bump, Function.update_of_ne hE] using hr

/-- A packet that the receiver is not past may be released. -/
theorem Inbox.append (h : Inbox sk T e r s sent got)
    (hnew : ∀ c, m.1.header.dh = P.publicKey (T.x c) → ¬ Past e r c m.1.header.n.toNat) :
    Inbox sk T e r s (sent ++ [m]) got := by
  refine ⟨h.synced, h.epoch, h.drawn, h.cached, ?_⟩
  intro m' hm' hgot c hdh hpast
  rcases List.mem_append.mp hm' with hm' | hm'
  · exact h.pending m' hm' hgot c hdh hpast
  · obtain rfl := List.mem_singleton.mp hm'
    exact absurd hpast (hnew c hdh)

theorem Outbox.packets_bump (h : Outbox sk T e sent) {E : Nat} {h0 he hlt} (hE : e ≤ E + 1)
    (hm : m ∈ sent) : ∃ c n, c % 2 = e % 2 ∧ c ≤ e ∧ n < (T.bump E h0 he hlt).cnt c ∧
      IsPacket sk T.x (T.bump E h0 he hlt).cnt c n m := by
  obtain ⟨c, n, hpar, hle, hn, hp⟩ := h.packets m hm
  have hmono : T.cnt c ≤ (T.bump E h0 he hlt).cnt c := by
    simp only [Timeline.bump, Function.update_apply]
    split
    · next hc => subst hc; omega
    · exact Nat.le_refl _
  refine ⟨c, n, hpar, hle, Nat.lt_of_lt_of_le hn hmono, hp.congr (fun _ _ => rfl) ?_⟩
  simp only [Timeline.bump]
  rw [Function.update_of_ne (by omega)]

theorem Outbox.bump (h : Outbox sk T e sent) {E : Nat} {h0 he hlt} (hE : e ≤ E + 1)
    (hne : e ≠ E) : Outbox sk (T.bump E h0 he hlt) e sent :=
  ⟨fun _ hm => h.packets_bump hE hm, h.distinct,
    by simpa only [Timeline.bump, Function.update_of_ne hne] using h.count⟩

/-- The next message of the sender's chain joins its released packets. -/
theorem Outbox.append (h : Outbox sk T e sent) {h0 he hlt}
    (hp : IsPacket sk T.x T.cnt e (T.cnt e) m) :
    Outbox sk (T.bump e h0 he hlt) e (sent ++ [m]) := by
  have hself : (T.bump e h0 he hlt).cnt e = T.cnt e + 1 := Function.update_self ..
  have hpn : T.cnt (e - 2) = (T.bump e h0 he hlt).cnt (e - 2) :=
    (Function.update_of_ne (by omega) ..).symm
  have hnew : ∀ m' ∈ sent, m.1.header.dh = m'.1.header.dh → m.1.header.n ≠ m'.1.header.n := by
    intro m' hm' hdh hn
    obtain ⟨-, -, hlt', -⟩ := h.at he hm' he (hdh.symm.trans hp.dh)
    rw [← hn, hp.num, toNat_ofNat_of_lt (T.small e)] at hlt'
    omega
  constructor
  · intro m' hm'
    rcases List.mem_append.mp hm' with hm' | hm'
    · exact h.packets_bump (by omega) hm'
    · obtain rfl := List.mem_singleton.mp hm'
      exact ⟨e, T.cnt e, rfl, Nat.le_refl _, by omega, hp.congr (fun _ _ => rfl) hpn⟩
  · intro m1 hm1 m2 hm2 hdh hn
    rcases List.mem_append.mp hm1 with h1 | h1 <;> rcases List.mem_append.mp hm2 with h2 | h2
    · exact h.distinct m1 h1 m2 h2 hdh hn
    · obtain rfl := List.mem_singleton.mp h2
      exact absurd hn.symm (hnew m1 h1 hdh.symm)
    · obtain rfl := List.mem_singleton.mp h1
      exact absurd hn (hnew m2 h2 hdh)
    · rw [List.mem_singleton.mp h1, List.mem_singleton.mp h2]
  · have hcount := h.count
    simp only [List.length_append, List.length_singleton]
    omega

theorem Matched.send (h : Matched S T ep rp w) {plaintext aad : Bytes}
    (hok : (encrypt (w.state who) plaintext aad).2.isOk)
    (hns : (w.state who).ns.toNat + 1 < 2 ^ 32) :
    ∃ T', T.Before T' ∧ Matched S T' ep rp (w.send who plaintext aad) := by
  have hin := h.inbox who
  obtain ⟨s', result, henc⟩ : ∃ s' result, encrypt (w.state who) plaintext aad = (s', result) :=
    ⟨_, _, rfl⟩
  obtain ⟨⟨header, c⟩, rfl⟩ : ∃ a, result = .ok a := by
    rw [henc] at hok
    cases result with
    | ok a => exact ⟨a, rfl⟩
    | error => cases hok
  have hlt : T.cnt (ep who) + 1 < 2 ^ 32 := by
    rwa [hin.synced.ns, toNat_ofNat_of_lt (T.small _)] at hns
  have h0 : ep who ≠ 0 := hin.synced.ne_zero (congrArg Prod.snd henc)
  have hbump : ∀ i, i ≠ ep who → (T.bump (ep who) h0 hin.epoch hlt).cnt i = T.cnt i :=
    fun i hi => Function.update_of_ne hi ..
  obtain ⟨hp, hs', hskipped⟩ := hin.synced.encrypt henc hbump (Function.update_self ..)
  have hpeer := h.inbox who.peer
  have hpar := h.parity who
  have hnear := h.near who
  have hnear' := h.near who.peer
  rw [Side.peer_peer] at hpeer
  have hle := hpeer.epoch
  have hsend : w.send who plaintext aad =
      { w with
        state := Function.update w.state who s'
        sent := Function.update w.sent who (w.sent who ++ [(⟨header, c, aad⟩, plaintext)]) } := by
    simp only [World.send, henc]
  rw [hsend]
  refine ⟨T.bump (ep who) h0 hin.epoch hlt, ⟨Nat.le_refl _, fun _ _ => rfl⟩, h.parity, h.near, h.keys, ?_, h.fed, ?_⟩
  · intro side
    rcases Side.eq_or_eq_peer side who with rfl | rfl
    · simp only [Function.update_self, Function.update_of_ne (Side.peer_ne side)]
      exact hin.bump hs' hskipped
    · simp only [Side.peer_peer, Function.update_self, Function.update_of_ne (Side.peer_ne who)]
      refine (hpeer.append fun e he => ?_).bump (hpeer.synced.congr (fun _ _ => rfl) ?_ ?_) rfl
      · intro hpast
        have he' := T.distinct _ hin.epoch e (by simp only [Past] at hpast; omega)
          (hp.dh.symm.trans he)
        rw [← he', hp.num, toNat_ofNat_of_lt (T.small _)] at hpast
        have hdrawn := hpeer.drawn
        rcases hpast with hpast | ⟨heq, hpast⟩
        · omega
        · rw [← heq, Nat.add_sub_cancel] at hdrawn
          omega
      · exact (hbump _ (by omega)).symm
      · exact (hbump _ (by omega)).symm
  · intro side
    rcases Side.eq_or_eq_peer side who with rfl | rfl
    · simp only [Function.update_self]
      exact (h.outbox side).append hp
    · simp only [Function.update_of_ne (Side.peer_ne who)]
      exact (h.outbox who.peer).bump (by omega) (by omega)

/-! ## The network -/

/-- The messages that a delivered header makes the receiver skip are within the limit: those left
in the chain being received, and those before it in its own chain. A header whose key is cached
skips nothing. -/
def WithinSkip (s : RatchetState P) (header : MessageHeader) : Prop :=
  s.mkskipped[(header.dh.bytes.toList, header.n)]? = none →
    if remoteKeyChanged s header then
      header.pn.toNat ≤ s.nr.toNat + MAX_SKIP.toNat ∧ header.n.toNat ≤ MAX_SKIP.toNat
    else header.n.toNat ≤ s.nr.toNat + MAX_SKIP.toNat

/-- The steps over a network that delivers genuine packets, each at most once, as far as `within`
allows. `encrypt` succeeds and its counter does not wrap. -/
def Genuine (within : RatchetState P → MessageHeader → Prop) (w : World P) : Event P → Prop
  | .send who plaintext aad =>
    (encrypt (w.state who) plaintext aad).2.isOk ∧ (w.state who).ns.toNat + 1 < 2 ^ 32
  | .feed who packet _ =>
    packet ∈ (w.sent who.peer).map Prod.fst ∧ packet ∉ w.fed who ∧
      within (w.state who) packet.header

instance (header : MessageHeader) : Decidable (WithinSkip s header) :=
  inferInstanceAs (Decidable (_ → ite ..))

instance [DecidableEq P.Cipher] {within : RatchetState P → MessageHeader → Prop}
    [∀ s header, Decidable (within s header)] (w : World P) : ∀ e, Decidable (Genuine within w e)
  | .send .. => inferInstanceAs (Decidable (_ = true ∧ _))
  | .feed who packet _ => inferInstanceAs (Decidable (packet ∈ _ ∧ packet ∉ w.fed who ∧ within ..))

/-- A packet of the peer is one that the receiver is past, one of the chain being received, or one
of the next chain. -/
theorem Matched.position (h : Matched S T ep rp w) (hm : m ∈ w.sent who.peer) :
    ∃ c, m.1.header.dh = P.publicKey (T.x c) ∧ m.1.header.n.toNat < T.cnt c ∧
      IsPacket S.sk T.x T.cnt c m.1.header.n.toNat m ∧
      (Past (ep who) (rp who) c m.1.header.n.toNat ∨
        c = ep who - 1 ∧ 2 ≤ ep who ∧ rp who ≤ m.1.header.n.toNat ∨
        c = ep who + 1 ∧ T.top = ep who + 1) := by
  have hout := h.outbox who.peer
  have hpeer := (h.inbox who.peer).epoch
  have hpar := h.parity who
  have hnear := h.near who
  obtain ⟨c, n, -, hle, -, hp⟩ := hout.packets m hm
  obtain ⟨hc, -, hn, hp⟩ := hout.at hpeer hm (by omega) hp.dh
  refine ⟨c, hp.dh, hn, hp, ?_⟩
  by_cases hpast : Past (ep who) (rp who) c m.1.header.n.toNat
  · exact .inl hpast
  simp only [Past] at hpast
  have h0 : c ≠ 0 := fun h0 => by
    rw [T.unsent c (.inl h0)] at hn
    omega
  by_cases hcur : c + 1 = ep who
  · exact .inr (.inl (by omega))
  · exact .inr (.inr (by omega))

/-- What a released packet of the peer says to a receiver that takes the ratchet step. -/
theorem Matched.released (h : Matched S T ep rp w) :
    ∀ m ∈ w.sent who.peer, ∀ c ≤ T.top, m.1.header.dh = P.publicKey (T.x c) →
      c ≠ ep who ∧ m.1.header.n.toNat < T.cnt c := by
  intro m hm c hc hdh
  have hpar := h.parity who
  obtain ⟨hpar', -, hn, -⟩ := (h.outbox who.peer).at (h.inbox who.peer).epoch hm hc hdh
  exact ⟨by omega, hn⟩

/-- A packet that the network delivers is opened under the key it was sealed with, and the
receiver stays in step. -/
theorem Matched.advance (hcomm : DhCommutes P) (h : Matched S T ep rp w)
    (hm : m ∈ w.sent who.peer) (hgot : m.1 ∉ (w.accepted who).map Prod.fst)
    (hskip : WithinSkip (w.state who) m.1.header)
    (hfresh : generates (w.state who) m.1.header = true → P.publicKey fresh ∉ w.keys) :
    ∃ s' c T' e' r', DoubleRatchet.advance (w.state who) m.1.header fresh =
        (s', .ok (messageKey (seed S.sk T.x c) m.1.header.n.toNat)) ∧
      IsPacket S.sk T.x T.cnt c m.1.header.n.toNat m ∧
      Inbox S.sk T' e' r' s' (w.sent who.peer)
        ((w.accepted who).map Prod.fst ++ [m.1]) ∧
      (T' = T ∧ e' = ep who ∨ T.top = ep who + 1 ∧ e' = ep who + 2 ∧
        generates (w.state who) m.1.header ∧ ∃ hf, T' = T.extend fresh hf) := by
  have hin := h.inbox who
  have hout := h.outbox who.peer
  have hle := hin.epoch
  obtain ⟨c, hdh, hn, hp, hpast | ⟨rfl, he, hr⟩ | ⟨rfl, htop⟩⟩ := h.position hm
  · obtain ⟨s', hadv, hin'⟩ := hin.feed_past fresh hout.distinct hm hgot hdh hpast
    exact ⟨s', c, T, _, _, hadv, hp, hin', .inl ⟨rfl, rfl⟩⟩
  · have hmiss : (w.state who).mkskipped[(m.1.header.dh.bytes.toList, m.1.header.n)]? = none := by
      rw [hdh]
      exact hin.miss (by omega) (by simp only [Past]; omega)
    have hsame : remoteKeyChanged (w.state who) m.1.header = false := by
      rw [remoteKeyChanged_eq_false_iff, hin.synced.dhr, if_neg (by omega), hdh]
    have hskip := hskip hmiss
    rw [hsame, if_neg Bool.false_ne_true] at hskip
    obtain ⟨s', hadv, hin'⟩ := hin.feed_ahead fresh hout.distinct hm hdh he hr hn hskip
    exact ⟨s', _, T, _, _, hadv, hp, hin', .inl ⟨rfl, rfl⟩⟩
  · obtain ⟨hnew, hmiss⟩ := hin.next hdh htop
    have hchanged := remoteKeyChanged_eq_true_iff.mpr hnew
    have hskip := hskip hmiss
    rw [hchanged, if_pos rfl] at hskip
    have hgen : generates (w.state who) m.1.header = true := by
      obtain ⟨s1, hs1, -⟩ := hin.synced.skipMessageKeys hskip.1
      simp [generates, hmiss, hchanged, hs1, Except.isOk, Except.toBool]
    have hf : ∀ i ≤ T.top, P.publicKey (T.x i) ≠ P.publicKey fresh :=
      fun i hi heq => hfresh hgen (heq ▸ h.keys i hi)
    obtain ⟨s', hadv, hin'⟩ := hin.feed_next hcomm hout.distinct h.released hm hdh htop hp.pn
      hskip.1 hskip.2 hf
    exact ⟨s', _, _, _, _, hadv, hp, hin', .inr ⟨htop, rfl, hgen, hf, rfl⟩⟩

theorem Inbox.extend (h : Inbox sk T e r s sent got)
    (hf : ∀ i ≤ T.top, P.publicKey (T.x i) ≠ P.publicKey fresh) :
    Inbox sk (T.extend fresh hf) e r s sent got := by
  have hle := h.epoch
  have hold : ∀ i ≤ e, T.x i = (T.extend fresh hf).x i :=
    fun i hi => (Timeline.extend_x (by omega)).symm
  have hpast_le : ∀ {c n}, Past e r c n → c ≤ e := fun hp => by simp only [Past] at hp; omega
  refine ⟨h.synced.congr hold rfl rfl, Nat.le_succ_of_le hle, h.drawn, ?_, ?_⟩
  · intro q hq
    obtain ⟨c, hc, hpast⟩ := h.cached q hq
    exact ⟨c, by rw [hc, hold c (hpast_le hpast)], hpast⟩
  · intro m hm hgot c hdh hpast
    rw [← hold c (hpast_le hpast)] at hdh
    rw [h.pending m hm hgot c hdh hpast,
      seed_congr fun i hi => hold i (Nat.le_trans hi (hpast_le hpast))]

theorem Outbox.extend (h : Outbox sk T e sent) (he : e ≤ T.top) {e' : Nat}
    (he' : e' = e ∨ e' = e + 2 ∧ T.top < e') (hf : ∀ i ≤ T.top, P.publicKey (T.x i) ≠ P.publicKey fresh) :
    Outbox sk (T.extend fresh hf) e' sent := by
  refine ⟨fun m hm => ?_, h.distinct, ?_⟩
  · obtain ⟨c, n, hpar, hle, hn, hp⟩ := h.packets m hm
    exact ⟨c, n, by omega, by omega, hn,
      hp.congr (fun i hi => (Timeline.extend_x (by omega)).symm) rfl⟩
  · rcases he' with rfl | ⟨-, hlt⟩
    · exact h.count
    · exact Nat.le_trans (Nat.le_of_eq (T.unsent e' (.inr hlt))) (Nat.zero_le _)

theorem fed_feed (h : ∀ who, ∀ m ∈ w.accepted who, m.1 ∈ w.fed who) (who : Side)
    (packet : Packet P) (fresh : P.Secret) (side : Side) :
    ∀ m ∈ (w.feed who packet fresh).accepted side, m.1 ∈ (w.feed who packet fresh).fed side := by
  intro m hm
  by_cases hside : side = who
  · subst hside
    simp only [World.feed, Function.update_self, List.mem_append] at hm ⊢
    rcases hm with hm | hm
    · exact .inl (h side m hm)
    · split at hm
      · exact .inr (by rw [List.mem_singleton.mp hm]; exact List.mem_singleton_self _)
      · cases hm
  · simp only [World.feed, Function.update_of_ne hside] at hm ⊢
    exact h side m hm

/-- The parties stay matched when the receiver of a packet does, on the same timeline or one ratchet
key on. -/
theorem Matched.receive (h : Matched S T ep rp w) {packet : Packet P} {T' : Timeline P} {e' : Nat}
    (r' : Nat)
    (hin : Inbox S.sk T' e' r' ((w.feed who packet fresh).state who) (w.sent who.peer)
      (((w.feed who packet fresh).accepted who).map Prod.fst))
    (hT : T' = T ∧ e' = ep who ∨ T.top = ep who + 1 ∧ e' = ep who + 2 ∧
      generates (w.state who) packet.header ∧ ∃ hf, T' = T.extend fresh hf) :
    T.Before T' ∧ (∀ side, ep side ≤ Function.update ep who e' side) ∧
      Matched S T' (Function.update ep who e') (Function.update rp who r')
        (w.feed who packet fresh) := by
  have hpar := h.parity who
  have hnear := h.near who.peer
  have hout := h.outbox who
  have hin' := h.inbox who.peer
  have hout' := h.outbox who.peer
  have hle := (h.inbox who).epoch
  have hle' := hin'.epoch
  have hkeys : ∀ k ∈ w.keys, k ∈ (w.feed who packet fresh).keys := by
    intro k hk
    simp only [World.feed]
    split
    · exact List.mem_cons_of_mem _ hk
    · exact hk
  rcases hT with ⟨rfl, rfl⟩ | ⟨htop, rfl, hgen, hf, rfl⟩
  · rw [Function.update_eq_self]
    refine ⟨.refl _, fun _ => Nat.le_refl _, h.parity, h.near, fun i hi => hkeys _ (h.keys i hi), ?_,
      fed_feed h.fed who packet fresh, h.outbox⟩
    intro side
    rcases Side.eq_or_eq_peer side who with rfl | rfl
    · rw [Function.update_self]
      exact hin
    · simpa only [World.feed, Function.update_of_ne (Side.peer_ne who)] using hin'
  refine ⟨Timeline.before_extend, fun side => ?_, ?_⟩
  · rcases Side.eq_or_eq_peer side who with rfl | rfl
    · rw [Function.update_self]
      omega
    · exact Nat.le_of_eq (Function.update_of_ne (Side.peer_ne who) ..).symm
  · constructor
    · intro side
      rcases Side.eq_or_eq_peer side who with rfl | rfl
      · rw [Function.update_self, Function.update_of_ne (Side.peer_ne side)]
        omega
      · rw [Side.peer_peer, Function.update_self, Function.update_of_ne (Side.peer_ne who)]
        omega
    · intro side
      simp only [Timeline.extend]
      rcases Side.eq_or_eq_peer side who with rfl | rfl
      · rw [Function.update_self]
        omega
      · rw [Function.update_of_ne (Side.peer_ne who)]
        omega
    · intro i hi
      by_cases hi' : i ≤ T.top
      · rw [Timeline.extend_x hi']
        exact hkeys _ (h.keys i hi')
      · obtain rfl : i = T.top + 1 := by simp only [Timeline.extend] at hi; omega
        simp [Timeline.extend, World.feed, hgen]
    · intro side
      rcases Side.eq_or_eq_peer side who with rfl | rfl
      · rw [Function.update_self, Function.update_self]
        exact hin
      · simpa only [World.feed, Function.update_of_ne (Side.peer_ne who)] using hin'.extend hf
    · exact fed_feed h.fed who packet fresh
    · intro side
      rcases Side.eq_or_eq_peer side who with rfl | rfl
      · rw [Function.update_self]
        exact hout.extend hle (.inr ⟨rfl, by omega⟩) hf
      · rw [Function.update_of_ne (Side.peer_ne who)]
        exact hout'.extend hle' (.inl rfl) hf

/-- **One delivery**: the plaintext is returned, and the session stays matched. -/
theorem Matched.feed (hcomm : DhCommutes P) (haead : AeadInverts P) (h : Matched S T ep rp w)
    (hm : m ∈ w.sent who.peer) (hgot : m.1 ∉ (w.accepted who).map Prod.fst)
    (hskip : WithinSkip (w.state who) m.1.header)
    (hfresh : generates (w.state who) m.1.header = true → P.publicKey fresh ∉ w.keys) :
    (decrypt (w.state who) m.1.header m.1.ciphertext m.1.aad fresh).2 = .ok m.2 ∧
      ∃ T' ep' rp', T.Before T' ∧ (∀ side, ep side ≤ ep' side) ∧
        Matched S T' ep' rp' (w.feed who m.1 fresh) := by
  obtain ⟨s', c, T', e', r', hadv, hp, hin, hT⟩ := h.advance hcomm hm hgot hskip hfresh
  have hdec : decrypt (w.state who) m.1.header m.1.ciphertext m.1.aad fresh = (s', .ok m.2) := by
    rw [decrypt_eq, hadv]
    exact congrArg (Prod.mk s') (hp.opens haead)
  refine ⟨by rw [hdec], T', _, _, h.receive r' ?_ hT⟩
  simpa only [World.feed, hdec, Function.update_self, List.map_append, List.map_singleton] using hin

theorem Matched.not_accepted (h : Matched S T ep rp w) {packet : Packet P}
    (hfed : packet ∉ w.fed who) : packet ∉ (w.accepted who).map Prod.fst := by
  intro hmem
  obtain ⟨m, hm, rfl⟩ := List.mem_map.mp hmem
  exact hfed (h.fed who m hm)

theorem matched_of_reachable (hcomm : DhCommutes P) (haead : AeadInverts P) (S : Start P)
    (hw : (S.session.restrict (Genuine WithinSkip)).Reachable w) :
    ∃ T ep rp, Matched S T ep rp w := by
  refine Machine.Reachable.invariant (M := S.session.restrict (Genuine WithinSkip))
    (I := fun w => ∃ T ep rp, Matched S T ep rp w) ⟨_, _, _, S.matched⟩ ?_ hw
  rintro w e - ⟨T, ep, rp, h⟩ ⟨hfresh, hgen⟩
  cases e with
  | send who plaintext aad =>
    obtain ⟨T', -, h'⟩ := h.send hgen.1 hgen.2
    exact ⟨T', _, _, h'⟩
  | feed who packet fresh =>
    obtain ⟨hmem, hfed, hskip⟩ := hgen
    obtain ⟨m, hm, rfl⟩ := List.mem_map.mp hmem
    obtain ⟨T', ep', rp', -, -, h'⟩ :=
      (h.feed hcomm haead hm (h.not_accepted hfed) hskip hfresh).2
    exact ⟨T', ep', rp', h'⟩

/-- **Delivery**: in every run over a network that delivers genuine packets within the skip
limit, `decrypt` returns the plaintext given to the matching `encrypt`. -/
theorem decrypt_delivered (hcomm : DhCommutes P) (haead : AeadInverts P) (S : Start P)
    {plaintext : Bytes} {packet : Packet P}
    (hw : (S.session.restrict (Genuine WithinSkip)).Reachable w)
    (hm : (packet, plaintext) ∈ w.sent who.peer)
    (he : (S.session.restrict (Genuine WithinSkip)).enabled w (.feed who packet fresh)) :
    (decrypt (w.state who) packet.header packet.ciphertext packet.aad fresh).2 = .ok plaintext := by
  obtain ⟨T, ep, rp, h⟩ := matched_of_reachable hcomm haead S hw
  exact (h.feed hcomm haead hm (h.not_accepted he.2.2.1) he.2.2.2 he.1).1

theorem decrypt_delivered_sample :
    (decrypt (sampleWorld.state .bob) (latest sampleWorld .alice).header
      (latest sampleWorld .alice).ciphertext (latest sampleWorld .alice).aad (keyPair 3)).2 =
        .ok [7] :=
  decrypt_delivered symbolic_dhCommutes symbolic_aeadInverts sampleStart
    (Machine.Reachable.init.exec (by decide +kernel : Machine.Allowed _ _ sampleRun))
    (by decide +kernel) (by decide +kernel)

/-! ## The limit counted from the counter before the call -/

/-- Every counter of the header against `nr` as it is when the header arrives. The DH step resets
`nr` before `n` is compared with it. -/
def WithinSkipBefore (s : RatchetState P) (header : MessageHeader) : Prop :=
  header.n.toNat ≤ s.nr.toNat + MAX_SKIP.toNat ∧
    (remoteKeyChanged s header = true → header.pn.toNat ≤ s.nr.toNat + MAX_SKIP.toNat)

instance (header : MessageHeader) : Decidable (WithinSkipBefore s header) :=
  inferInstanceAs (Decidable (_ ∧ (_ → _)))

theorem encrypt_symbolic {s : RatchetState symbolic} {ck : symbolic.Block} (hck : s.cks = some ck)
    (plaintext aad : Bytes) : encrypt s plaintext aad =
      let header := { dh := s.dhs.name, pn := s.pn, n := s.ns }
      ({ s with cks := some (kdfCk symbolic ck).1, ns := s.ns + 1 },
        .ok (header, .box (kdfCk symbolic ck).2 (messageNonce s.ns) plaintext
          (buildAad header aad))) := by
  simp only [encrypt, hck]
  rfl

/-- `k` messages in a row. -/
theorem exists_sends {C : World symbolic → Event symbolic → Prop} {S : Start symbolic}
    {w : World symbolic} {ck : symbolic.Block} (hw : (S.session.restrict C).Reachable w)
    (hck : (w.state who).cks = some ck) (plaintext aad : Bytes) (k : Nat)
    (hC : ∀ w' i, i < k → w'.state who = { w.state who with
      cks := some (chainKey ck i), ns := (w.state who).ns + .ofNat i } →
        C w' (.send who plaintext aad)) :
    ∃ w', (S.session.restrict C).Reachable w' ∧
      w'.state = Function.update w.state who
        { w.state who with cks := some (chainKey ck k), ns := (w.state who).ns + .ofNat k } ∧
      w'.fed = w.fed ∧ w'.keys = w.keys ∧ ∀ side, w.sent side ⊆ w'.sent side := by
  induction k with
  | zero =>
    have hsame : { w.state who with
        cks := some (chainKey ck 0), ns := (w.state who).ns + .ofNat 0 } = w.state who := by
      cases hs : w.state who
      simp_all [chainKey]
    exact ⟨w, hw, by rw [hsame, Function.update_eq_self], rfl, rfl, fun _ => List.Subset.refl _⟩
  | succ k ih =>
    obtain ⟨w', hw', hstate, hfed, hkeys, hsent⟩ := ih fun w' i hi => hC w' i (Nat.lt_succ_of_lt hi)
    have hs := congrFun hstate who
    rw [Function.update_self] at hs
    have hsend : (S.session.restrict C).enabled w' (.send who plaintext aad) :=
      ⟨trivial, hC w' k (Nat.lt_succ_self k) hs⟩
    refine ⟨_, hw'.step hsend, ?_, hfed, hkeys, ?_⟩
    · change (w'.send who plaintext aad).state = _
      simp only [World.send, hstate, Function.update_self, Function.update_idem]
      rw [UInt32.ofNat_add, ← UInt32.add_assoc]
      rfl
    · intro side m hm
      change m ∈ (w'.send who plaintext aad).sent side
      by_cases hside : side = who
      · subst hside
        simp only [World.send, Function.update_self]
        exact List.mem_append_left _ (hsent side hm)
      · simp only [World.send, Function.update_of_ne hside]
        exact hsent side hm

/-- One message each way: Alice is at a new ratchet key, Bob has drawn one key of her first. -/
def roundTrip : World symbolic :=
  let w := sampleWorld.feed .bob (latest sampleWorld .alice) (keyPair 3)
  let w := w.send .bob [8] []
  w.feed .alice (latest w .bob) (keyPair 4)

theorem roundTrip_reachable :
    (sampleStart.session.restrict (Genuine WithinSkipBefore)).Reachable roundTrip :=
  let w := sampleWorld.feed .bob (latest sampleWorld .alice) (keyPair 3)
  let es : List (Event symbolic) := sampleRun ++
    [.feed .bob (latest sampleWorld .alice) (keyPair 3), .send .bob [8] [],
      .feed .alice (latest (w.send .bob [8] []) .bob) (keyPair 4)]
  Machine.Reachable.init.exec (by decide +kernel : Machine.Allowed _ _ es)

/-- Alice has sent 1002 messages under the new key; the last of them comes first. Its `n = 1001`
is within 1000 of Bob's `nr = 1`, but not of the `nr = 0` that it is compared with. -/
theorem decrypt_undelivered : ∃ (w : World symbolic) (packet : Packet symbolic),
    (sampleStart.session.restrict (Genuine WithinSkipBefore)).Reachable w ∧
      (packet, [9]) ∈ w.sent .alice ∧
      (sampleStart.session.restrict (Genuine WithinSkipBefore)).enabled w
        (.feed .bob packet (keyPair 5)) ∧
      (decrypt (w.state .bob) packet.header packet.ciphertext packet.aad (keyPair 5)).2 =
        .error (.error .skipLimitExceeded) := by
  obtain ⟨ck, hck⟩ := Option.isSome_iff_exists.mp
    (by decide +kernel : (roundTrip.state .alice).cks.isSome)
  have hns : (roundTrip.state .alice).ns = 0 := by decide +kernel
  obtain ⟨w, hw, hstate, hfed, hkeys, -⟩ := exists_sends roundTrip_reachable hck [9] [] 1001 (by
    intro w' i hi hs
    refine ⟨?_, ?_⟩
    · rw [encrypt_symbolic (congrArg RatchetState.cks hs)]
      rfl
    · rw [hs]
      simp only [hns, UInt32.zero_add]
      rw [toNat_ofNat_of_lt (by omega)]
      omega)
  have halice := congrFun hstate .alice
  have hbob : w.state .bob = roundTrip.state .bob := congrFun hstate .bob
  rw [Function.update_self] at halice
  have hheader : MessageHeader.mk (w.state .alice).dhs.name (w.state .alice).pn
      (w.state .alice).ns = ⟨(keyPair 4).name, 1, 1001⟩ := by
    rw [halice]
    dsimp only
    decide +kernel
  obtain ⟨s', c, henc⟩ : ∃ s' c, encrypt (w.state .alice) [9] [] =
      (s', .ok (⟨(keyPair 4).name, 1, 1001⟩, c)) :=
    ⟨_, _, hheader ▸ encrypt_symbolic (congrArg RatchetState.cks halice) [9] []⟩
  have hns : (w.state .alice).ns = 1001 := congrArg MessageHeader.n hheader
  have hsend : (sampleStart.session.restrict (Genuine WithinSkipBefore)).enabled w
      (.send .alice [9] []) := ⟨trivial, by rw [henc]; rfl, by rw [hns]; decide⟩
  have hbob' : (w.send .alice [9] []).state .bob = roundTrip.state .bob := hbob
  refine ⟨w.send .alice [9] [], ⟨⟨(keyPair 4).name, 1, 1001⟩, c, []⟩, hw.step hsend, ?_,
    ⟨fun _ => ?_, ?_, ?_, ?_⟩, ?_⟩
  · simp only [World.send, henc]
    simp
  · change _ ∉ w.keys
    rw [hkeys]
    decide +kernel
  · simp only [World.send, henc]
    simp
  · have hn : ∀ p ∈ roundTrip.fed .bob, p.header.n ≠ 1001 := by decide +kernel
    simp only [World.send, hfed]
    exact fun hmem => hn _ hmem rfl
  · rw [hbob']
    dsimp only
    decide +kernel
  · have hmiss : (roundTrip.state .bob).mkskipped[((keyPair 4).name.bytes.toList,
        (1001 : UInt32))]? = none := by decide +kernel
    have hnew : (roundTrip.state .bob).dhr ≠ some (keyPair 4).name := by decide +kernel
    have hpn : (1 : UInt32) ≤ (roundTrip.state .bob).nr := by decide +kernel
    rw [hbob', decrypt_eq, advance_changed hmiss hnew, skipMessageKeys_of_le hpn]
    dsimp only
    rw [advanceTo_of_limit (by decide)]
    rfl

end Vesper.DoubleRatchet
