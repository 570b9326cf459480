import Vesper.Client.Establishment

/-!
# Convergence of two clients

Two clients that start without a session and a server that relays every wire once and in order,
as a machine: either client encrypts, or reads the next wire of the other, at any time. `Linked`
is its invariant as long as no client starts a session while the other's first wire is on its
way.
-/

namespace Vesper.Client
open DoubleRatchet X3dh
variable {P : Primitives}

structure Account (P : Primitives) where
  id : Nat
  identity : IdentityKeys P

/-- The stores of both clients; the wires of each on their way, the oldest first, and what the
calls of `drDecrypt` at each returned, both next to the plaintexts sent; and the ratchet keys. -/
structure Net (P : Primitives) where
  store : Side → RatchetStore P
  flight : Side → List (Bytes × Wire P)
  results : Side → List (Bytes × Except Thrown (Option Bytes))
  keys : List KeyAgreementPublicKey

inductive Call (P : Primitives) where
  | encrypt (who : Side) (send : Send P)
  | decrypt (who : Side) (fresh : P.Secret)

section
variable (C : Side → Account P) (w : Net P)

/-- The stored session of the two. -/
def Net.session (who : Side) : Option (RatchetState P) :=
  w.store who (pairKey (C who).id (C who.peer).id)

def Net.encrypt (who : Side) (m : Send P) : Net P :=
  let (store, result) := drEncrypt (C who).identity (.ok (buildBundle (C who.peer).identity))
    (w.store who) (C who).id (C who.peer).id m.plaintext m.ek m.fresh
  { w with
    store := Function.update w.store who store
    flight := Function.update w.flight who <| w.flight who ++
      match result with
      | .ok wire => [(m.plaintext, wire)]
      | .error _ => []
    keys := P.publicKey m.fresh :: w.keys }

def Net.decrypt (who : Side) (fresh : P.Secret) : Net P :=
  match w.flight who.peer with
  | [] => w
  | m :: rest =>
    let (store, result) := drDecrypt (C who).identity (w.store who) (C who).id (C who.peer).id
      m.2 fresh
    { store := Function.update w.store who store
      flight := Function.update w.flight who.peer rest
      results := Function.update w.results who (w.results who ++ [(m.1, result)])
      keys := P.publicKey fresh :: w.keys }

/-- Generated keys are new, and only a wire on its way is read. -/
def Net.Enabled : Call P → Prop
  | .encrypt _ m => P.publicKey m.fresh ∉ w.keys
  | .decrypt who fresh => w.flight who.peer ≠ [] ∧ P.publicKey fresh ∉ w.keys

/-- A client without a session sends only while the other has none either. -/
def Uncrossed : Call P → Prop
  | .encrypt who _ => w.session C who = none → w.session C who.peer = none
  | .decrypt .. => True

instance : ∀ e, Decidable (w.Enabled e)
  | .encrypt _ m => inferInstanceAs (Decidable (P.publicKey m.fresh ∉ w.keys))
  | .decrypt who fresh =>
    inferInstanceAs (Decidable (w.flight who.peer ≠ [] ∧ P.publicKey fresh ∉ w.keys))

instance : ∀ e, Decidable (Uncrossed C w e)
  | .encrypt who _ =>
    inferInstanceAs (Decidable (w.session C who = none → w.session C who.peer = none))
  | .decrypt .. => .isTrue trivial

end

/-- Two clients over a server that relays in order. -/
def net (C : Side → Account P) : Machine (Net P) (Call P) where
  init :=
    { store := fun _ _ => none
      flight := fun _ => []
      results := fun _ => []
      keys := [P.publicKey (C .alice).identity.spkSecret, P.publicKey (C .bob).identity.spkSecret] }
  enabled := Net.Enabled
  next w
    | .encrypt who m => w.encrypt C who m
    | .decrypt who fresh => w.decrypt C who fresh

instance (C : Side → Account P) (w : Net P) (e : Call P) : Decidable ((net C).enabled w e) :=
  inferInstanceAs (Decidable (w.Enabled e))

/-! ## Wires on their way -/

/-- The wires on their way to a receiver at epoch `e` that has drawn the keys below `r` of chain
`e - 1`: the rest of that chain, then the chain after the receiver's own. -/
def Arriving (sk : P.Block) (x : Nat → P.Secret) (cnt : Nat → Nat) :
    Nat → Nat → List (Bytes × Wire P) → Prop
  | e, r, [] => r = cnt (e - 1) ∧ cnt (e + 1) = 0
  | e, r, m :: ms =>
    (r < cnt (e - 1) ∧ Carries sk x cnt (e - 1) r m ∧ Arriving sk x cnt e (r + 1) ms) ∨
    (r = cnt (e - 1) ∧ 0 < cnt (e + 1) ∧ Carries sk x cnt (e + 1) 0 m ∧
      Arriving sk x cnt (e + 2) 1 ms)

variable {sk : P.Block} {x y : Nat → P.Secret} {cnt cnt' : Nat → Nat} {e r n E : Nat}
  {m : Bytes × Wire P} {ms : List (Bytes × Wire P)}

theorem Carries.congr (h : Carries sk x cnt e n m) (hx : ∀ i ≤ e, x i = y i)
    (hcnt : cnt (e - 2) = cnt' (e - 2)) : Carries sk y cnt' e n m := by
  obtain ⟨header, c, hdr, hp⟩ := h
  exact ⟨header, c, hdr, hp.congr hx hcnt⟩

/-- Chains that are not started yet do not matter. -/
theorem Arriving.congr (h : Arriving sk x cnt e r ms) (hx : ∀ i, (∀ c, i ≤ c → cnt c = 0) ∨ x i = y i) :
    Arriving sk y cnt e r ms := by
  induction ms generalizing e r with
  | nil => exact h
  | cons m ms ih =>
    have hold : ∀ {c}, 0 < cnt c → ∀ i ≤ c, x i = y i := by
      intro c hc i hi
      rcases hx i with hnone | hxy
      · have := hnone c hi
        omega
      · exact hxy
    rcases h with ⟨hr, hm, hms⟩ | ⟨hr, hpos, hm, hms⟩
    · exact .inl ⟨hr, hm.congr (hold (by omega)) rfl, ih hms⟩
    · exact .inr ⟨hr, hpos, hm.congr (hold hpos) rfl, ih hms⟩

/-- The chain `E` of the receiver itself does not matter. -/
theorem Arriving.congr_own (h : Arriving sk x cnt e r ms) (he : e % 2 = E % 2) (he0 : e ≠ 0)
    (hE : E ≠ 0) (hcnt : ∀ c, c ≠ E → cnt' c = cnt c) : Arriving sk x cnt' e r ms := by
  have hpred := hcnt (e - 1) (by omega)
  have hsucc := hcnt (e + 1) (by omega)
  induction ms generalizing e r with
  | nil => exact ⟨hpred ▸ h.1, hsucc ▸ h.2⟩
  | cons m ms ih =>
    rcases h with ⟨hr, hm, hms⟩ | ⟨hr, hpos, hm, hms⟩
    · refine .inl ⟨hpred ▸ hr, hm.congr (fun _ _ => rfl) ?_, ih hms he he0 hpred hsucc⟩
      exact (hcnt _ (by omega)).symm
    · refine .inr ⟨hpred ▸ hr, hsucc ▸ hpos, hm.congr (fun _ _ => rfl) ?_, ?_⟩
      · exact (hcnt _ (by omega)).symm
      · exact ih hms (by omega) (by omega) (hcnt _ (by omega)) (hcnt _ (by omega))

/-- The peer, at epoch `E`, sends one more wire. -/
theorem Arriving.append (h : Arriving sk x cnt e r ms) (hE : E + 1 = e ∨ E = e + 1)
    (hE0 : E ≠ 0) (hlast : cnt (E + 2) = 0) (hcnt : ∀ c, c ≠ E → cnt' c = cnt c) (hcnt' : cnt' E = cnt E + 1)
    (hm : Carries sk x cnt' E (cnt E) m) : Arriving sk x cnt' e r (ms ++ [m]) := by
  have hnext : cnt' (E + 2) = 0 := by rw [hcnt _ (by omega), hlast]
  induction ms generalizing e r with
  | nil =>
    obtain ⟨hr, hzero⟩ := h
    rcases hE with rfl | rfl
    · rw [Nat.add_sub_cancel] at hr
      subst hr
      refine .inl ⟨?_, hm, ?_, hnext⟩
      · rw [Nat.add_sub_cancel]; omega
      · rw [Nat.add_sub_cancel]; omega
    · rw [hzero] at hm hcnt'
      exact .inr ⟨by rw [hcnt _ (by omega), hr], by omega, hm, hcnt'.symm, hnext⟩
  | cons m' ms ih =>
    rcases h with ⟨hr, hm', hms⟩ | ⟨hr, hpos, hm', hms⟩
    · refine .inl ⟨?_, hm'.congr (fun _ _ => rfl) (hcnt _ (by omega)).symm, ih hms hE⟩
      rcases hE with rfl | rfl
      · rw [Nat.add_sub_cancel] at hr ⊢; omega
      · rwa [hcnt _ (by omega)]
    · obtain rfl : E = e + 1 := by
        rcases hE with rfl | hE
        · exact absurd hlast (Nat.ne_of_gt hpos)
        · exact hE
      refine .inr ⟨by rw [hcnt _ (by omega), hr], by omega,
        hm'.congr (fun _ _ => rfl) (hcnt _ (by omega)).symm, ?_⟩
      exact ih hms (.inl rfl)

/-! ## The invariant -/

section
variable {C : Side → Account P} {w : Net P} {who : Side} {s s' : RatchetState P}

/-- `w` with `s` stored at `who`. -/
def Net.put (C : Side → Account P) (w : Net P) (who : Side) (s : RatchetState P) : Net P :=
  { w with
    store := Function.update w.store who
      (Function.update (w.store who) (pairKey (C who).id (C who.peer).id) (some s)) }

@[simp] theorem Net.session_put_self : (w.put C who s).session C who = some s := by
  simp only [Net.session, Net.put, Function.update_self]

@[simp] theorem Net.session_put_peer :
    (w.put C who s).session C who.peer = w.session C who.peer := by
  simp only [Net.session, Net.put, Function.update_of_ne (Side.peer_ne who)]

/-- A call of `drEncrypt` changes nothing, or stores a session and sends a wire. -/
theorem Net.encrypt_cases (C : Side → Account P) (w : Net P) (who : Side) (m : Send P) :
    w.encrypt C who m = { w with keys := P.publicKey m.fresh :: w.keys } ∨
      ∃ s wire, sessionEncrypt (C who).identity.ikDhSecret
          (.ok (buildBundle (C who.peer).identity)) (w.session C who) m.plaintext m.ek m.fresh =
            .ok (s, wire) ∧
        w.encrypt C who m = { w.put C who s with
          flight := Function.update w.flight who (w.flight who ++ [(m.plaintext, wire)])
          keys := P.publicKey m.fresh :: w.keys } := by
  rcases h : sessionEncrypt (C who).identity.ikDhSecret
    (.ok (buildBundle (C who.peer).identity)) (w.session C who) m.plaintext m.ek m.fresh with
    _ | ⟨s, wire⟩
  · rw [Net.session] at h
    simp only [Net.encrypt, drEncrypt, encryptAt, h, Function.update_eq_self, List.append_nil]
    exact .inl trivial
  · refine .inr ⟨s, wire, rfl, ?_⟩
    rw [Net.session] at h
    simp only [Net.encrypt, drEncrypt, encryptAt, h, Net.put]

/-- The session a client is in: the stored one, or the one that the init message on its way is
about to start. -/
inductive Holds (C : Side → Account P) (sk : P.Block) (w : Net P) (who : Side) :
    RatchetState P → Prop
  | stored {s : RatchetState P} : w.session C who = some s →
    (∀ m ∈ w.flight who.peer, m.2.init = none) → Holds C sk w who s
  | first {m : Bytes × Wire P} {ms : List (Bytes × Wire P)} {initMsg : Bytes} :
    w.session C who = none → w.flight who.peer = m :: ms → m.2.init = some initMsg →
    receiveInit (C who).identity.ikDhSecret (C who).identity.spkSecret initMsg = .ok sk →
    (∀ m ∈ ms, m.2.init = none) → Holds C sk w who (initReceiver P sk (C who).identity.spkSecret)

theorem Holds.readWith (h : Holds C sk w who s) (hm : w.flight who.peer = m :: ms) :
    ReadWith (C who).identity.ikDhSecret (C who).identity.spkSecret (w.session C who) m.2.init s ∧
      ∀ m ∈ ms, m.2.init = none := by
  cases h with
  | stored hs hinit =>
    rw [hm] at hinit
    rw [hs, hinit m List.mem_cons_self]
    exact ⟨.stored, fun m' hm' => hinit m' (List.mem_cons_of_mem _ hm')⟩
  | first hs hm' hinit hsk hms =>
    cases hm.symm.trans hm'
    rw [hs, hinit]
    exact ⟨.first hsk, hms⟩

/-- Another wire without an init message is sent. -/
theorem Holds.append (h : Holds C sk w who s) {w' : Net P}
    (hs : w'.session C who = w.session C who)
    (hm : w'.flight who.peer = w.flight who.peer ++ [m]) (hinit : m.2.init = none) :
    Holds C sk w' who s := by
  cases h with
  | stored hstored hnone =>
    refine .stored (hs.trans hstored) fun m' hm' => ?_
    rw [hm] at hm'
    rcases List.mem_append.mp hm' with hm' | hm'
    · exact hnone m' hm'
    · rw [List.mem_singleton.mp hm', hinit]
  | first hnone hflight hfirst hsk hms =>
    refine .first (hs.trans hnone) (by rw [hm, hflight]; rfl) hfirst hsk fun m' hm' => ?_
    rcases List.mem_append.mp hm' with hm' | hm'
    · exact hms m' hm'
    · rw [List.mem_singleton.mp hm', hinit]

/-- Both clients are in one session, at neighbouring epochs, with empty caches. The ratchet keys so
far are `x 0` to `x top`. -/
structure Linked (C : Side → Account P) (sk : P.Block) (x : Nat → P.Secret) (cnt : Nat → Nat)
    (top : Nat) (ep rp : Side → Nat) (w : Net P) : Prop where
  near : ∀ who, ep who ≤ top ∧ top ≤ ep who + 1 ∧ ep who ≠ ep (Side.peer who)
  unsent : ∀ c, c = 0 ∨ top < c → cnt c = 0
  keys : ∀ i ≤ top, P.publicKey (x i) ∈ w.keys
  distinct : ∀ i ≤ top, ∀ j ≤ top, P.publicKey (x i) = P.publicKey (x j) → i = j
  holds : ∀ who, ∃ s, Synced sk x cnt (ep who) (rp who) s ∧ s.mkskipped = ∅ ∧ Holds C sk w who s
  arriving : ∀ who, Arriving sk x cnt (ep who) (rp who) (w.flight who.peer)
  one : ∀ who, w.session C who = none → w.session C (Side.peer who) ≠ none

variable {top : Nat} {ep rp : Side → Nat} {fresh : P.Secret}

/-- A client with a session sends. -/
theorem Linked.encrypt (h : Linked C sk x cnt top ep rp w) (hs : w.session C who ≠ none)
    (m : Send P) : ∃ cnt', Linked C sk x cnt' top ep rp (w.encrypt C who m) := by
  have hkeys : ∀ i ≤ top, P.publicKey (x i) ∈ P.publicKey m.fresh :: w.keys :=
    fun i hi => List.mem_cons_of_mem _ (h.keys i hi)
  rcases Net.encrypt_cases C w who m with heq | ⟨s', wire, henc, heq⟩
  · rw [heq]
    refine ⟨cnt, h.near, h.unsent, hkeys, h.distinct, fun side => ?_, h.arriving, h.one⟩
    obtain ⟨s, hsync, hempty, hholds⟩ := h.holds side
    cases hholds with
    | stored h1 h2 => exact ⟨s, hsync, hempty, .stored h1 h2⟩
    | first h1 h2 h3 h4 h5 => exact ⟨_, hsync, hempty, .first h1 h2 h3 h4 h5⟩
  · obtain ⟨s, hsync, hempty, hholds⟩ := h.holds who
    cases hholds with
    | first hnone => exact absurd hnone hs
    | stored hstored hinit =>
    rw [hstored] at henc
    obtain ⟨⟨header, c⟩, hmsg, rfl⟩ := sessionEncrypt_some.mp henc
    have he0 : ep who ≠ 0 := hsync.ne_zero (congrArg Prod.snd hmsg)
    have hcnt : ∀ i, i ≠ ep who → Function.update cnt (ep who) (cnt (ep who) + 1) i = cnt i :=
      fun i hi => Function.update_of_ne hi ..
    obtain ⟨hp, hsync', hskipped⟩ := hsync.encrypt hmsg hcnt (Function.update_self ..)
    have hnear := h.near who
    have hnearp := h.near who.peer
    obtain ⟨sp, hsyncp, hemptyp, hholdsp⟩ := h.holds who.peer
    have harr := h.arriving who.peer
    rw [Side.peer_peer] at harr
    rw [heq]
    refine ⟨Function.update cnt (ep who) (cnt (ep who) + 1), h.near, ?_, hkeys, h.distinct, ?_, ?_,
      ?_⟩
    · intro c hc
      rw [hcnt c (by omega)]
      exact h.unsent c hc
    · intro side
      rcases Side.eq_or_eq_peer side who with rfl | rfl
      · refine ⟨s', hsync', by rw [hskipped, hempty], .stored Net.session_put_self fun m' hm' => ?_⟩
        dsimp only at hm'
        rw [Function.update_of_ne (Side.peer_ne side)] at hm'
        exact hinit m' hm'
      · refine ⟨sp, hsyncp.congr (fun _ _ => rfl) ?_ ?_, hemptyp,
          hholdsp.append (m := (m.plaintext, ⟨none, some (header, c)⟩))
            Net.session_put_peer ?_ rfl⟩
        · exact (hcnt _ (by omega)).symm
        · exact (hcnt _ (by omega)).symm
        · rw [Side.peer_peer]
          exact Function.update_self ..
    · intro side
      rcases Side.eq_or_eq_peer side who with rfl | rfl
      · dsimp only
        rw [Function.update_of_ne (Side.peer_ne side)]
        exact (h.arriving side).congr_own rfl he0 he0 hcnt
      · dsimp only
        rw [Side.peer_peer, Function.update_self]
        exact harr.append (by omega) he0 (h.unsent _ (.inr (by omega))) hcnt
          (Function.update_self ..)
          ⟨header, c, rfl, hp.congr (fun _ _ => rfl) (hcnt _ (by omega)).symm⟩
    · intro side hside
      rcases Side.eq_or_eq_peer side who with rfl | rfl
      · exact absurd (hside.symm.trans Net.session_put_self) (by simp)
      · rw [Side.peer_peer]
        exact fun hnone => absurd (hnone.symm.trans Net.session_put_self) (by simp)

/-- The first call of all starts a session. -/
theorem Linked.of_first (hcomm : DhCommutes P) (hnone : ∀ side, w.session C side = none)
    (hflight : ∀ side, w.flight side = [])
    (hkeys : P.publicKey (C who.peer).identity.spkSecret ∈ w.keys) {m : Send P}
    (hfresh : P.publicKey m.fresh ∉ w.keys) {s : RatchetState P} {wire : Wire P}
    (hsend : sessionEncrypt (C who).identity.ikDhSecret (.ok (buildBundle (C who.peer).identity)) none
      m.plaintext m.ek m.fresh = .ok (s, wire)) :
    ∃ sk x cnt top ep rp, Linked C sk x cnt top ep rp { w.put C who s with
      flight := Function.update w.flight who (w.flight who ++ [(m.plaintext, wire)])
      keys := P.publicKey m.fresh :: w.keys } := by
  obtain ⟨sk, x, init, hx0, hx1, -, hinit, hsk, hcarry, hsync, hempty⟩ := initiated hcomm hsend
  have hne : P.publicKey (x 0) ≠ P.publicKey (x 1) := by
    rw [hx0, hx1]
    exact fun heq => hfresh (heq ▸ hkeys)
  refine ⟨sk, x, fun e => if e = 1 then 1 else 0, 1, fun side => if side = who then 1 else 0,
    fun _ => 0, ?_, ?_, ?_, ?_, ?_, ?_, ?_⟩
  · intro side
    rcases Side.eq_or_eq_peer side who with rfl | rfl <;> simp [-Side.peer]
  · exact fun c hc => if_neg (by omega)
  · intro i hi
    obtain rfl | rfl : i = 0 ∨ i = 1 := by omega
    · exact List.mem_cons_of_mem _ (hx0 ▸ hkeys)
    · exact hx1 ▸ List.mem_cons_self
  · intro i hi j hj hij
    obtain rfl | rfl : i = 0 ∨ i = 1 := by omega
    · obtain rfl | rfl : j = 0 ∨ j = 1 := by omega
      · rfl
      · exact absurd hij hne
    · obtain rfl | rfl : j = 0 ∨ j = 1 := by omega
      · exact absurd hij.symm hne
      · rfl
  · intro side
    rcases Side.eq_or_eq_peer side who with rfl | rfl
    · rw [if_pos rfl]
      refine ⟨s, hsync, hempty, .stored Net.session_put_self ?_⟩
      dsimp only
      rw [Function.update_of_ne (Side.peer_ne side), hflight]
      exact fun _ hm => absurd hm List.not_mem_nil
    · rw [if_neg (Side.peer_ne who)]
      have hreceiver : Synced sk x (fun _ => 0) 0 0
          (initReceiver P sk (C who.peer).identity.spkSecret) :=
        hx0 ▸ Synced.of_initReceiver fun _ => rfl
      have hsent : Function.update w.flight who (w.flight who ++ [(m.plaintext, wire)]) who.peer.peer =
          [(m.plaintext, wire)] := by
        rw [Side.peer_peer, Function.update_self, hflight]
        rfl
      exact ⟨_, hreceiver.congr (fun _ _ => rfl) rfl rfl, rfl,
        .first (Net.session_put_peer.trans (hnone who.peer)) hsent hinit hsk
          fun _ hm => absurd hm List.not_mem_nil⟩
  · intro side
    dsimp only
    rcases Side.eq_or_eq_peer side who with rfl | rfl
    · rw [Function.update_of_ne (Side.peer_ne side), hflight, if_pos rfl]
      exact ⟨rfl, rfl⟩
    · rw [Side.peer_peer, Function.update_self, hflight, if_neg (Side.peer_ne who)]
      exact .inr ⟨rfl, Nat.one_pos, hcarry.congr (fun _ _ => rfl) rfl, rfl, rfl⟩
  · intro side hside
    rcases Side.eq_or_eq_peer side who with rfl | rfl
    · exact absurd (hside.symm.trans Net.session_put_self) (by simp)
    · rw [Side.peer_peer]
      exact fun hnone => absurd (hnone.symm.trans Net.session_put_self) (by simp)

variable (fresh) in
/-- The next wire, as the receiver's session opens it. -/
theorem Linked.opens (hcomm : DhCommutes P) (haead : AeadInverts P)
    (h : Linked C sk x cnt top ep rp w) (hm : w.flight who.peer = m :: ms) {s : RatchetState P}
    (hsync : Synced sk x cnt (ep who) (rp who) s) (hempty : s.mkskipped = ∅) :
    ∃ header c s' y top' e r, m.2.dr = some (header, c) ∧
      DoubleRatchet.decrypt s header c [] fresh = (s', .ok m.1) ∧
      Synced sk y cnt e r s' ∧ s'.mkskipped = ∅ ∧ Arriving sk y cnt e r ms ∧
      (∀ i ≤ top, x i = y i) ∧ (top' = top ∧ e = ep who ∨
        top' = top + 1 ∧ top = ep who + 1 ∧ e = ep who + 2 ∧ y top' = fresh) := by
  have hnear := h.near who
  have hunsent := h.unsent
  have harr := h.arriving who
  rw [hm] at harr
  have hopen : ∀ {header c s' n e}, IsPacket sk x cnt e n (⟨header, c, []⟩, m.1) →
      advance s header fresh = (s', .ok (messageKey (seed sk x e) n)) →
      DoubleRatchet.decrypt s header c [] fresh = (s', .ok m.1) := by
    intro header c s' n e hp hadv
    rw [decrypt_eq, hadv]
    exact congrArg (Prod.mk s') (hp.opens haead)
  rcases harr with ⟨hr, ⟨header, c, hdr, hp⟩, hms⟩ | ⟨hr, hpos, ⟨header, c, hdr, hp⟩, hms⟩
  · -- the rest of the chain being received
    have he : 2 ≤ ep who := by
      by_contra he
      have := hunsent (ep who - 1) (.inl (by omega))
      omega
    have hnr : header.n = s.nr := hp.num.trans hsync.nr.symm
    obtain ⟨s', hadv, hsync', hcache⟩ := hsync.advance_same fresh he (by simp [hempty]) hp.dh hp.num
      (.inl rfl) (by rw [hnr]; omega)
    refine ⟨header, c, s', x, _, _, _, hdr, hopen hp hadv, hsync', ?_, hms, fun _ _ => rfl,
      .inl ⟨rfl, rfl⟩⟩
    rw [hcache, Nat.sub_self, fill_zero, hempty]
  · -- the peer has taken a ratchet step
    have htop : top = ep who + 1 := by
      by_contra htop
      have := hunsent (ep who + 1) (.inr (by omega))
      omega
    let y : Nat → P.Secret := fun i => if i ≤ ep who + 1 then x i else fresh
    have hxy : ∀ i ≤ ep who + 1, x i = y i := fun i hi => (if_pos hi).symm
    have hy : y (ep who + 2) = fresh := if_neg (by omega)
    have hnew : s.dhr ≠ some header.dh := by
      rw [hsync.dhr, hp.dh]
      split
      · simp
      · intro heq
        have := h.distinct _ (by omega) _ (by omega) (Option.some.inj heq)
        omega
    have hpn : header.pn = s.nr := by
      rw [hsync.nr, hr]
      exact hp.pn
    have hclosed : closed s header.pn = s.mkskipped := by
      rw [hpn, closed]
      split
      · rw [Nat.sub_self, fill_zero]
      · rfl
    obtain ⟨s', hadv, hsync', hcache⟩ := hsync.advance_next hcomm (by simp [hempty]) hp.dh hnew
      hp.num (Nat.zero_le _) (by rw [hpn]; omega) hxy hy (hunsent _ (.inr (by omega)))
    refine ⟨header, c, s', y, top + 1, _, _, hdr, hopen hp hadv, hsync', ?_, hms.congr fun i => ?_,
      fun i hi => hxy i (by omega), .inr ⟨rfl, htop, rfl, htop ▸ hy⟩⟩
    · rw [hcache, fill_zero, hclosed, hempty]
    · by_cases hi : i ≤ ep who + 1
      · exact .inr (hxy i hi)
      · exact .inl fun c hc => hunsent c (.inr (by omega))

/-- **One delivery in order**: the plaintext is returned, and the clients stay linked. -/
theorem Linked.decrypt (hcomm : DhCommutes P) (haead : AeadInverts P)
    (h : Linked C sk x cnt top ep rp w) (hm : w.flight who.peer = m :: ms)
    (hfresh : P.publicKey fresh ∉ w.keys) :
    ∃ s' y top' ep' rp', w.decrypt C who fresh =
        { w.put C who s' with
          flight := Function.update w.flight who.peer ms
          results := Function.update w.results who (w.results who ++ [(m.1, .ok (some m.1))])
          keys := P.publicKey fresh :: w.keys } ∧
      Linked C sk y cnt top' ep' rp' (w.decrypt C who fresh) := by
  obtain ⟨s, hsync, hempty, hholds⟩ := h.holds who
  obtain ⟨header, c, s', y, top', e, r, hdr, hdec, hsync', hempty', harr, hxy, hnext⟩ :=
    h.opens fresh hcomm haead hm hsync hempty
  obtain ⟨hread, hms⟩ := hholds.readWith hm
  have hresult := hread.drDecrypt hdr hdec
  have heq : w.decrypt C who fresh =
      { w.put C who s' with
        flight := Function.update w.flight who.peer ms
        results := Function.update w.results who (w.results who ++ [(m.1, .ok (some m.1))])
        keys := P.publicKey fresh :: w.keys } := by
    simp only [Net.decrypt, hm, hresult]
    rfl
  have hnear := h.near who
  have hnearp := h.near who.peer
  rw [Side.peer_peer] at hnearp
  obtain ⟨sp, hsyncp, hemptyp, hholdsp⟩ := h.holds who.peer
  have harrp := h.arriving who.peer
  have hflight : Function.update w.flight who.peer ms who = w.flight who :=
    Function.update_of_ne (Side.peer_ne who).symm ..
  have hold : ∀ i ≤ top, P.publicKey (y i) ∈ w.keys := fun i hi => hxy i hi ▸ h.keys i hi
  have hnew : ∀ i ≤ top', i ≤ top ∨ i = top' ∧ y i = fresh := by
    intro i hi
    rcases hnext with ⟨rfl, -⟩ | ⟨rfl, -, -, hy⟩
    · exact .inl hi
    · rcases Nat.lt_or_eq_of_le hi with hi | rfl
      · exact .inl (by omega)
      · exact .inr ⟨rfl, hy⟩
  refine ⟨s', y, top', Function.update ep who e, Function.update rp who r, heq, ?_⟩
  rw [heq]
  refine ⟨?_, ?_, ?_, ?_, ?_, ?_, ?_⟩
  · intro side
    rcases Side.eq_or_eq_peer side who with rfl | rfl
    · rw [Function.update_self, Function.update_of_ne (Side.peer_ne side)]
      omega
    · rw [Side.peer_peer, Function.update_self, Function.update_of_ne (Side.peer_ne who)]
      omega
  · exact fun c hc => h.unsent c (by omega)
  · intro i hi
    rcases hnew i hi with hi | ⟨-, hy⟩
    · exact List.mem_cons_of_mem _ (hold i hi)
    · exact hy ▸ List.mem_cons_self
  · intro i hi j hj hij
    rcases hnew i hi with hit | ⟨hit, hyi⟩
    · rcases hnew j hj with hjt | ⟨-, hyj⟩
      · rw [← hxy i hit, ← hxy j hjt] at hij
        exact h.distinct i hit j hjt hij
      · exact absurd (hyj ▸ hij ▸ hold i hit) hfresh
    · rcases hnew j hj with hjt | ⟨hjt, -⟩
      · exact absurd (hyi ▸ hij ▸ hold j hjt) hfresh
      · rw [hit, hjt]
  · intro side
    rcases Side.eq_or_eq_peer side who with rfl | rfl
    · rw [Function.update_self, Function.update_self]
      refine ⟨s', hsync', hempty', .stored Net.session_put_self ?_⟩
      dsimp only
      rwa [Function.update_self]
    · rw [Function.update_of_ne (Side.peer_ne who), Function.update_of_ne (Side.peer_ne who)]
      refine ⟨sp, hsyncp.congr (fun i hi => hxy i (by omega)) rfl rfl, hemptyp, ?_⟩
      cases hholdsp with
      | stored h1 h2 =>
        refine .stored (Net.session_put_peer.trans h1) ?_
        dsimp only
        rw [Side.peer_peer] at h2 ⊢
        rwa [hflight]
      | first h1 h2 h3 h4 h5 =>
        refine .first (Net.session_put_peer.trans h1) ?_ h3 h4 h5
        dsimp only
        rw [Side.peer_peer] at h2 ⊢
        rwa [hflight]
  · intro side
    dsimp only
    rcases Side.eq_or_eq_peer side who with rfl | rfl
    · rw [Function.update_self, Function.update_self, Function.update_self]
      exact harr
    · rw [Function.update_of_ne (Side.peer_ne who), Function.update_of_ne (Side.peer_ne who)]
      rw [Side.peer_peer] at harrp ⊢
      rw [hflight]
      refine harrp.congr fun i => ?_
      by_cases hi : i ≤ top
      · exact .inr (hxy i hi)
      · exact .inl fun c hc => h.unsent c (.inr (by omega))
  · intro side hside
    rcases Side.eq_or_eq_peer side who with rfl | rfl
    · exact absurd (hside.symm.trans Net.session_put_self) (by simp)
    · rw [Side.peer_peer]
      exact fun hnone => absurd (hnone.symm.trans Net.session_put_self) (by simp)

/-! ## Runs -/

theorem allReceived_append {rs : List (Bytes × Except Thrown (Option Bytes))}
    {r : Bytes × Except Thrown (Option Bytes)} :
    AllReceived (rs ++ [r]) ↔ AllReceived rs ∧ r.2 = .ok (some r.1) := by
  rw [AllReceived, List.forall_mem_append, List.forall_mem_singleton]
  rfl

/-- A session is never given up. -/
theorem Net.session_next {e : Call P} {side : Side} (h : w.session C side ≠ none) :
    ((net C).next w e).session C side ≠ none := by
  cases e with
  | encrypt who m =>
    change (w.encrypt C who m).session C side ≠ none
    rcases Net.encrypt_cases C w who m with heq | ⟨s, wire, -, heq⟩
    · rw [heq]
      exact h
    · rw [heq]
      rcases Side.eq_or_eq_peer side who with rfl | rfl
      · exact fun hnone => absurd (hnone.symm.trans Net.session_put_self) (by simp)
      · exact fun hnone => h (Net.session_put_peer.symm.trans hnone)
  | decrypt who fresh =>
    change (w.decrypt C who fresh).session C side ≠ none
    unfold Net.decrypt
    split
    · exact h
    · next m rest _ =>
      rcases Side.eq_or_eq_peer side who with rfl | rfl
      · simp only [Net.session, Function.update_self, drDecrypt, decryptAt]
        split
        · dsimp only
          rw [Function.update_self]
          exact Option.some_ne_none _
        · exact h
        · exact h
      · simp only [Net.session, Function.update_of_ne (Side.peer_ne who)]
        exact h

/-- Every message read so far came out as its plaintext. -/
def Net.Delivered (w : Net P) : Prop := ∀ who, AllReceived (w.results who)

/-- Both clients have read a message of the other. -/
def Net.Both (w : Net P) : Prop := ∀ who, w.results who ≠ []

/-- No client has a session yet, or both are in one; who has read a message has a session. -/
structure Converging (C : Side → Account P) (w : Net P) : Prop where
  delivered : w.Delivered
  started : ∀ who, w.results who ≠ [] → w.session C who ≠ none
  state : (∀ who, w.session C who = none ∧ w.flight who = [] ∧
      P.publicKey (C who).identity.spkSecret ∈ w.keys) ∨
    ∃ sk x cnt top ep rp, Linked C sk x cnt top ep rp w

theorem Converging.next (hcomm : DhCommutes P) (haead : AeadInverts P) (h : Converging C w)
    {e : Call P} (he : w.Enabled e) (huncrossed : Uncrossed C w e) :
    Converging C ((net C).next w e) := by
  cases e with
  | encrypt who m =>
    refine ⟨h.delivered, fun side hside => Net.session_next (h.started side hside), ?_⟩
    rcases h.state with hidle | ⟨sk, x, cnt, top, ep, rp, hlink⟩
    · change _ ∨ ∃ sk x cnt top ep rp, Linked C sk x cnt top ep rp (w.encrypt C who m)
      rcases Net.encrypt_cases C w who m with heq | ⟨s, wire, hsend, heq⟩
      · refine .inl fun side => ?_
        obtain ⟨h1, h2, h3⟩ := hidle side
        change (w.encrypt C who m).session C side = none ∧ (w.encrypt C who m).flight side = [] ∧
          _ ∈ (w.encrypt C who m).keys
        rw [heq]
        exact ⟨h1, h2, List.mem_cons_of_mem _ h3⟩
      · rw [(hidle who).1] at hsend
        rw [heq]
        exact .inr (Linked.of_first hcomm (fun side => (hidle side).1) (fun side => (hidle side).2.1)
          (hidle who.peer).2.2 he hsend)
    · have hs : w.session C who ≠ none := fun hnone => hlink.one who hnone (huncrossed hnone)
      obtain ⟨cnt', hlink'⟩ := hlink.encrypt hs m
      exact .inr ⟨_, _, _, _, _, _, hlink'⟩
  | decrypt who fresh =>
    obtain ⟨hflight, hfresh⟩ := he
    rcases h.state with hidle | ⟨sk, x, cnt, top, ep, rp, hlink⟩
    · exact absurd (hidle who.peer).2.1 hflight
    · obtain ⟨m, ms, hm⟩ := List.exists_cons_of_ne_nil hflight
      obtain ⟨s', y, top', ep', rp', heq, hlink'⟩ := hlink.decrypt hcomm haead hm hfresh
      refine ⟨fun side => ?_, fun side hside => ?_, .inr ⟨_, _, _, _, _, _, hlink'⟩⟩
      · change AllReceived ((w.decrypt C who fresh).results side)
        rw [heq]
        rcases Side.eq_or_eq_peer side who with rfl | rfl
        · dsimp only
          rw [Function.update_self, allReceived_append]
          exact ⟨h.delivered side, rfl⟩
        · dsimp only
          rw [Function.update_of_ne (Side.peer_ne who)]
          exact h.delivered _
      · change (w.decrypt C who fresh).session C side ≠ none
        change (w.decrypt C who fresh).results side ≠ [] at hside
        rcases Side.eq_or_eq_peer side who with rfl | rfl
        · rw [heq]
          exact fun hnone => absurd (hnone.symm.trans Net.session_put_self) (by simp)
        · rw [heq] at hside
          dsimp only at hside
          rw [Function.update_of_ne (Side.peer_ne who)] at hside
          exact Net.session_next (e := .decrypt who fresh) (h.started _ hside)

theorem converging_of_reachable (hcomm : DhCommutes P) (haead : AeadInverts P)
    (hw : ((net C).restrict (Uncrossed C)).Reachable w) : Converging C w := by
  refine Machine.Reachable.invariant (M := (net C).restrict (Uncrossed C)) (I := Converging C)
    ⟨?_, ?_, .inl fun side => ⟨rfl, rfl, ?_⟩⟩ ?_ hw
  · intro side m hm
    cases hm
  · exact fun side hside => absurd rfl hside
  · cases side <;> simp [Machine.restrict, net]
  · exact fun w e _ h he => h.next hcomm haead he.1 he.2

/-- Once both have a session nothing can cross. -/
theorem Converging.exec (hcomm : DhCommutes P) (haead : AeadInverts P) (h : Converging C w)
    (hs : ∀ who, w.session C who ≠ none) {es : List (Call P)} (hes : (net C).Allowed w es) :
    Converging C ((net C).exec w es) := by
  induction es generalizing w with
  | nil => exact h
  | cons e es ih =>
    have huncrossed : Uncrossed C w e := by
      cases e with
      | encrypt who m => exact fun hnone => absurd hnone (hs who)
      | decrypt => trivial
    exact ih (h.next hcomm haead hes.1 huncrossed) (fun who => Net.session_next (hs who)) hes.2

/-- **Convergence**: in every run in which no client starts a session while the other has one,
every message read comes out as its plaintext; and once both have read one, that holds for all
that follows, whatever they do. -/
theorem sessions_converge (hcomm : DhCommutes P) (haead : AeadInverts P) (C : Side → Account P)
    (hw : ((net C).restrict (Uncrossed C)).Reachable w) :
    w.Delivered ∧ (w.Both → ∀ es, (net C).Allowed w es → ((net C).exec w es).Delivered) := by
  have h := converging_of_reachable hcomm haead hw
  exact ⟨h.delivered, fun hboth es hes =>
    (h.exec hcomm haead (fun who => h.started who (hboth who)) hes).delivered⟩

end

def sampleAccounts : Side → Account symbolic
  | .alice => ⟨1, sampleIdentity 10⟩
  | .bob => ⟨2, sampleIdentity 20⟩

def sampleSend (b : UInt8) : Send symbolic := ⟨[b], keyPair (b + 100), keyPair b⟩

/-- A message each way. -/
theorem sessions_converge_sample :
    let w := (net sampleAccounts).exec (net sampleAccounts).init
      [.encrypt .alice (sampleSend 30), .decrypt .bob (keyPair 31), .encrypt .bob (sampleSend 32),
        .decrypt .alice (keyPair 33)]
    w.Delivered ∧ (w.Both → ∀ es, (net sampleAccounts).Allowed w es →
      ((net sampleAccounts).exec w es).Delivered) :=
  sessions_converge symbolic_dhCommutes symbolic_aeadInverts sampleAccounts
    (Machine.Reachable.init.exec (by decide +kernel))

/-- The first messages cross. -/
def crossing : List (Call symbolic) :=
  [.encrypt .alice (sampleSend 30), .encrypt .bob (sampleSend 31), .decrypt .alice (keyPair 32),
    .decrypt .bob (keyPair 33)]

/-- What Alice sends next. -/
def afterCrossing : List (Call symbolic) := [.encrypt .alice (sampleSend 34), .decrypt .bob (keyPair 35)]

theorem crossing_run :
    let w := (net sampleAccounts).exec (net sampleAccounts).init crossing
    (net sampleAccounts).Allowed (net sampleAccounts).init crossing ∧
      (AllReceived (w.results .alice) ∧ AllReceived (w.results .bob)) ∧
      (w.results .alice ≠ [] ∧ w.results .bob ≠ []) ∧ (net sampleAccounts).Allowed w afterCrossing ∧
      ¬ AllReceived (((net sampleAccounts).exec w afterCrossing).results .bob) := by
  decide +kernel

/-- The first messages cross, and each client ends up in the session that the other has just
dropped: what Alice sends next is not decrypted. -/
theorem sessions_diverge :
    let w := (net sampleAccounts).exec (net sampleAccounts).init
      [.encrypt .alice (sampleSend 30), .encrypt .bob (sampleSend 31), .decrypt .alice (keyPair 32),
        .decrypt .bob (keyPair 33)]
    (net sampleAccounts).Reachable w ∧ w.Delivered ∧ w.Both ∧
      ∃ es, (net sampleAccounts).Allowed w es ∧ ¬ ((net sampleAccounts).exec w es).Delivered := by
  obtain ⟨hcrossing, hdelivered, hboth, hafter, hlost⟩ := crossing_run
  refine ⟨Machine.Reachable.init.exec hcrossing, ?_, ?_, afterCrossing, hafter, fun hall => hlost (hall .bob)⟩
  · rintro (_ | _)
    · exact hdelivered.1
    · exact hdelivered.2
  · rintro (_ | _)
    · exact hboth.1
    · exact hboth.2

end Vesper.Client
