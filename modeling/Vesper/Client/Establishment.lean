import Vesper.Client.Session
import Vesper.Ratchet.Epochs

/-!
# Session establishment when the server drops wires

One client sends to a peer that has no session and the server relays some of the wires. The X3DH
init message goes with the first wire only, so everything hangs on that one.
-/

namespace Vesper.Client
open DoubleRatchet X3dh
variable {P : Primitives}

/-- A call of `drEncrypt`: the plaintext, and the key pairs generated if it starts a session. -/
structure Send (P : Primitives) where
  plaintext : Bytes
  ek : P.Secret
  fresh : P.Secret

/-- The wires of a row of calls, each with its plaintext. A call that throws sends nothing. -/
def sendAll (identity : IdentityKeys P) (peerBundle : X3dhBundle P) (myId peerId : Nat) :
    RatchetStore P → List (Send P) → List (Bytes × Wire P)
  | _, [] => []
  | store, m :: ms =>
    match drEncrypt identity (.ok peerBundle) store myId peerId m.plaintext m.ek m.fresh with
    | (store, .ok wire) => (m.plaintext, wire) :: sendAll identity peerBundle myId peerId store ms
    | (store, .error _) => sendAll identity peerBundle myId peerId store ms

/-- What the server relays of the wires `i`, `i + 1`, ... -/
def relay (dropped : Nat → Bool) : Nat → List (Bytes × Wire P) → List (Bytes × Wire P)
  | _, [] => []
  | i, m :: ms => if dropped i then relay dropped (i + 1) ms else m :: relay dropped (i + 1) ms

/-- What the peer's calls of `drDecrypt` return, next to the plaintexts that were sent. -/
def receiveAll (identity : IdentityKeys P) (myId senderId : Nat) (fresh : Nat → P.Secret) :
    Nat → RatchetStore P → List (Bytes × Wire P) → List (Bytes × Except Thrown (Option Bytes))
  | _, _, [] => []
  | i, store, m :: ms =>
    let (store, result) := drDecrypt identity store myId senderId m.2 (fresh i)
    (m.1, result) :: receiveAll identity myId senderId fresh (i + 1) store ms

/-- Every relayed wire was decrypted to its plaintext. -/
def AllReceived (results : List (Bytes × Except Thrown (Option Bytes))) : Prop :=
  ∀ m ∈ results, m.2 = .ok (some m.1)

instance (results : List (Bytes × Except Thrown (Option Bytes))) :
    Decidable (AllReceived results) :=
  inferInstanceAs (Decidable (∀ m ∈ results, m.2 = .ok (some m.1)))

section
variable {identity : IdentityKeys P} {peerBundle : X3dhBundle P} {myId peerId : Nat}
  {store : RatchetStore P} {session : RatchetState P} {dropped : Nat → Bool}

/-- A client that has a session sends no init message. -/
theorem init_eq_none (hs : store (pairKey myId peerId) = some session) (ms : List (Send P)) :
    ∀ m ∈ sendAll identity peerBundle myId peerId store ms, m.2.init = none := by
  induction ms generalizing store session with
  | nil => simp [sendAll]
  | cons m ms ih =>
    simp only [sendAll, drEncrypt, encryptAt, hs]
    rcases henc : sessionEncrypt identity.ikDhSecret (.ok peerBundle) (some session) m.plaintext
      m.ek m.fresh with e | ⟨newSession, wire⟩
    · exact ih hs
    · obtain ⟨message, -, rfl⟩ := sessionEncrypt_some.mp henc
      dsimp only
      rintro m' (_ | ⟨_, hm'⟩)
      · rfl
      · exact ih (Function.update_self ..) m' hm'

theorem relay_subset (i : Nat) (ms : List (Bytes × Wire P)) :
    ∀ m ∈ relay dropped i ms, m ∈ ms := by
  induction ms generalizing i with
  | nil => simp [relay]
  | cons m ms ih =>
    rw [relay]
    split
    · exact fun m' hm' => List.mem_cons_of_mem _ (ih (i + 1) m' hm')
    · rintro m' (_ | ⟨_, hm'⟩)
      · exact List.mem_cons_self
      · exact List.mem_cons_of_mem _ (ih (i + 1) m' hm')

/-- Without a session and without an init message, `drDecrypt` returns `null`. -/
theorem receiveAll_null {senderId : Nat} (hs : store (pairKey myId senderId) = none)
    (fresh : Nat → P.Secret) (i : Nat) {ms : List (Bytes × Wire P)}
    (hms : ∀ m ∈ ms, m.2.init = none) :
    receiveAll identity myId senderId fresh i store ms = ms.map fun m => (m.1, .ok none) := by
  induction ms generalizing i with
  | nil => rfl
  | cons m ms ih =>
    have hnull : drDecrypt identity store myId senderId m.2 (fresh i) = (store, .ok none) := by
      simp only [drDecrypt, decryptAt, hs, sessionDecrypt, hms m List.mem_cons_self]
    rw [receiveAll, hnull, List.map_cons]
    exact congrArg _ (ih (i + 1) fun m' hm' => hms m' (List.mem_cons_of_mem _ hm'))

variable (identity peerBundle) in
/-- The first wire comes from a call that starts a session. -/
theorem sendAll_first (hs : store (pairKey myId peerId) = none) (ms : List (Send P)) :
    sendAll identity peerBundle myId peerId store ms = [] ∨
      ∃ m ms' session wire, sessionEncrypt identity.ikDhSecret (.ok peerBundle) none
          (Send.plaintext m) m.ek m.fresh = .ok (session, wire) ∧
        sendAll identity peerBundle myId peerId store ms = (m.plaintext, wire) ::
          sendAll identity peerBundle myId peerId
            (Function.update store (pairKey myId peerId) (some session)) ms' := by
  induction ms with
  | nil => exact .inl rfl
  | cons m ms ih =>
    simp only [sendAll, drEncrypt, encryptAt, hs]
    rcases henc : sessionEncrypt identity.ikDhSecret (.ok peerBundle) none m.plaintext
      m.ek m.fresh with e | ⟨newSession, wire⟩
    · exact ih
    · exact .inr ⟨m, ms, newSession, wire, henc, rfl⟩

end

/-! ## The wires after the first -/

/-- The wire of the plaintext `m.1` carries message `n` of chain `e`. -/
def Carries (sk : P.Block) (x : Nat → P.Secret) (cnt : Nat → Nat) (e n : Nat)
    (m : Bytes × Wire P) : Prop :=
  ∃ header c, m.2.dr = some (header, c) ∧ IsPacket sk x cnt e n (⟨header, c, []⟩, m.1)

/-- Wires `i`, `i + 1`, ... of the chain that the first wire started. -/
def Numbered (sk : P.Block) (x : Nat → P.Secret) : Nat → List (Bytes × Wire P) → Prop
  | _, [] => True
  | i, m :: ms =>
    (m.2.init = none ∧ Carries sk x (fun _ => 0) 1 i m) ∧ Numbered sk x (i + 1) ms

section
variable {identity : IdentityKeys P} {peerBundle : X3dhBundle P} {myId peerId : Nat}
  {store : RatchetStore P} {session : RatchetState P} {sk : P.Block} {x y : Nat → P.Secret}

theorem sendAll_numbered (hs : store (pairKey myId peerId) = some session) {i : Nat}
    (h : Synced sk x (fun e => if e = 1 then i else 0) 1 0 session) (ms : List (Send P)) :
    Numbered sk x i (sendAll identity peerBundle myId peerId store ms) := by
  induction ms generalizing store session i with
  | nil => trivial
  | cons m ms ih =>
    simp only [sendAll, drEncrypt, encryptAt, hs]
    rcases henc : sessionEncrypt identity.ikDhSecret (.ok peerBundle) (some session) m.plaintext
      m.ek m.fresh with e | ⟨newSession, wire⟩
    · exact ih hs h
    · obtain ⟨⟨header, c⟩, hmsg, rfl⟩ := sessionEncrypt_some.mp henc
      have hnext : IsPacket sk x (fun e => if e = 1 then i else 0) 1 i (⟨header, c, []⟩, _) ∧
          Synced sk x (fun e => if e = 1 then i + 1 else 0) 1 0 newSession ∧ _ :=
        h.encrypt hmsg (fun e he => by simp [he]) (by simp)
      apply And.intro
      · exact ⟨rfl, header, c, rfl, hnext.1.congr (fun _ _ => rfl) rfl⟩
      · exact ih (Function.update_self ..) hnext.2.1

/-- The receiver keeps up as long as fewer wires are missing than it may skip. -/
theorem receiveAll_numbered (haead : AeadInverts P) {senderId : Nat}
    (hs : store (pairKey myId senderId) = some session) {cnt : Nat → Nat} {r i : Nat}
    (h : Synced sk y cnt 2 r session) (hxy : ∀ e ≤ 1, x e = y e)
    (hmiss : ∀ k : UInt32, r ≤ k.toNat →
      session.mkskipped[((P.publicKey (y 1)).bytes.toList, k)]? = none)
    (fresh : Nat → P.Secret) (j : Nat) {dropped : Nat → Bool} {ms : List (Bytes × Wire P)}
    (hms : Numbered sk x i ms) (hr : r ≤ i) (hlen : i + ms.length ≤ 2 ^ 32)
    (hlost : i - r + (List.range' i ms.length).countP dropped ≤ 1000) :
    AllReceived (receiveAll identity myId senderId fresh j store (relay dropped i ms)) := by
  induction ms generalizing store session r i j with
  | nil => simp [relay, receiveAll, AllReceived]
  | cons m ms ih =>
    obtain ⟨⟨hinit, header, c, hdr, hp⟩, hrest⟩ := hms
    rw [List.length_cons, List.range'_succ, List.countP_cons] at hlost
    rw [List.length_cons] at hlen
    rw [relay]
    split
    · next hdrop =>
      rw [if_pos hdrop] at hlost
      exact ih hs h hmiss j hrest (by omega) (by omega) (by omega)
    · have hn : header.n.toNat = i := by rw [hp.num]; exact toNat_ofNat_of_lt (by omega)
      have hnr : session.nr.toNat = r := by rw [h.nr, toNat_ofNat_of_lt (by omega)]
      have hdh : header.dh = P.publicKey (y 1) := by rw [← hxy 1 (Nat.le_refl _)]; exact hp.dh
      obtain ⟨session', hadv, h', hcache⟩ := h.advance_same (fresh j)
        (Nat.le_refl 2) (by rw [hdh]; exact hmiss _ (by omega)) hdh hp.num
        (.inr ⟨hr, by omega⟩) (by omega)
      have hdec : decrypt session header c [] (fresh j) = (session', .ok m.1) := by
        have hopen := hp.opens haead
        rw [seed_congr hxy] at hopen
        rw [decrypt_eq, hadv]
        exact congrArg (Prod.mk session') hopen
      have hread : ReadWith identity.ikDhSecret identity.spkSecret (store (pairKey myId senderId))
          m.2.init session := by
        rw [hs, hinit]
        exact .stored
      rw [receiveAll, hread.drDecrypt hdr hdec]
      rintro m' (_ | ⟨_, hm'⟩)
      · rfl
      · refine ih (Function.update_self ..) h' ?_ (j + 1) hrest (Nat.le_refl _) (by omega)
          (by omega) m' hm'
        intro k hk
        rw [hcache, getElem?_fill_chain hr (by omega), if_neg (by dsimp only; omega)]
        exact hmiss k (by omega)

end

/-! ## The first wire -/

section
variable {alice bob : IdentityKeys P} {ikDh : P.Secret} {aliceId bobId : Nat}
  {store store' : RatchetStore P} {m : Send P} {session : RatchetState P} {wire : Wire P}

/-- A call that starts a session: the wire carries the first message of chain 1, and an init
message from which the peer derives the same key. -/
theorem initiated (hcomm : DhCommutes P) (hsend : sessionEncrypt ikDh (.ok (buildBundle bob)) none
      m.plaintext m.ek m.fresh = .ok (session, wire)) :
    ∃ sk x init, x 0 = bob.spkSecret ∧ x 1 = m.fresh ∧ init.ikDh = P.publicKey ikDh ∧
      wire.init = some (initBytes init) ∧
      receiveInit bob.ikDhSecret bob.spkSecret (initBytes init) = .ok sk ∧
      Carries sk x (fun _ => 0) 1 0 (m.plaintext, wire) ∧
      Synced sk x (fun e => if e = 1 then 1 else 0) 1 0 session ∧ session.mkskipped = ∅ := by
  obtain ⟨first, init, ⟨header, c⟩, hinit, henc, rfl⟩ := sessionEncrypt_none.mp hsend
  obtain ⟨out, hout, hsender, rfl⟩ := initiate_ok_iff.mp hinit
  let x : Nat → P.Secret := fun e => if e = 0 then bob.spkSecret else m.fresh
  obtain ⟨hsync, hempty⟩ := Synced.of_initSender (x := x) hsender fun _ => rfl
  have hnext : IsPacket out.sk x (fun _ => 0) 1 0 (⟨header, c, []⟩, m.plaintext) ∧
      Synced out.sk x (fun e => if e = 1 then 1 else 0) 1 0 session ∧ _ :=
    hsync.encrypt henc (fun e he => by simp [he]) (by simp)
  refine ⟨out.sk, x, out.init, rfl, rfl, ?_, rfl, ?_, ⟨header, c, rfl, hnext.1⟩, hnext.2.1, ?_⟩
  · obtain ⟨-, rfl⟩ := (x3dhSend_ok_iff rfl).mp hout
    rfl
  · exact receiveInit_initBytes.mpr (x3dhReceive_of_x3dhSend hcomm rfl rfl rfl hout)
  · rw [hnext.2.2, hempty]

/-- The first wire at the peer: a session from its init message reads it. -/
theorem responded (hcomm : DhCommutes P) (haead : AeadInverts P)
    (hsend : sessionEncrypt ikDh (.ok (buildBundle bob)) none m.plaintext m.ek m.fresh =
      .ok (session, wire)) (fresh : P.Secret) :
    ∃ sk x y init session', Synced sk x (fun e => if e = 1 then 1 else 0) 1 0 session ∧
      init.ikDh = P.publicKey ikDh ∧ wire.init = some (initBytes init) ∧
      respond bob.ikDhSecret bob.spkSecret (initBytes init) wire.dr fresh =
        .ok (session', m.plaintext) ∧
      Synced sk y (fun _ => 0) 2 1 session' ∧ session'.mkskipped = ∅ ∧ ∀ e ≤ 1, x e = y e := by
  obtain ⟨sk, x, init, hx0, -, hik, hinit, hsk, ⟨header, c, hdr, hp⟩, hsync, -⟩ :=
    initiated hcomm hsend
  let y : Nat → P.Secret := fun e => if e ≤ 1 then x e else fresh
  have hreceiver : Synced sk x (fun _ => 0) 0 0 (initReceiver P sk bob.spkSecret) :=
    hx0 ▸ Synced.of_initReceiver fun _ => rfl
  have hpn : header.pn = 0 := hp.pn
  obtain ⟨session', hadv, hs', hcache⟩ := hreceiver.advance_next (y := y) hcomm
    (by simp [initReceiver]) hp.dh (by simp [initReceiver]) hp.num (Nat.zero_le _)
    (by simp [hpn]) (fun e he => by simp [y, he]) (show y 2 = fresh by simp [y]) rfl
  have hdec : decrypt (initReceiver P sk bob.spkSecret) header c [] fresh =
      (session', .ok m.plaintext) := by
    rw [decrypt_eq, hadv]
    exact congrArg (Prod.mk session') (hp.opens haead)
  refine ⟨sk, x, y, init, session', hsync, hik, hinit,
    respond_ok_iff.mpr ⟨sk, header, c, hsk, hdr, hdec⟩, hs', ?_, fun e he => by simp [y, he]⟩
  rw [hcache]
  rfl

/-- **Establishment**: of the wires towards a peer without a session, fewer than `MAX_SKIP` of
which are lost, all relayed ones are decrypted exactly when none is relayed or the sender had no
session either and the first wire is relayed. The skipped ones need distinct counters. -/
theorem all_received_iff (hcomm : DhCommutes P) (haead : AeadInverts P)
    (hpeer : store' (pairKey bobId aliceId) = none) (msgs : List (Send P)) (dropped : Nat → Bool)
    (fresh : Nat → P.Secret) :
    let wires := sendAll alice (buildBundle bob) aliceId bobId store msgs
    let results := receiveAll bob bobId aliceId fresh 0 store' (relay dropped 0 wires)
    let first := relay dropped 0 wires = [] ∨
      store (pairKey aliceId bobId) = none ∧ dropped 0 = false
    (List.range' 0 wires.length).countP dropped < MAX_SKIP.toNat →
      (AllReceived results → first) ∧
        (first → wires.length ≤ 2 ^ 32 → AllReceived results) := by
  intro wires results first hlost
  have hnull : ∀ i ms, (∀ m ∈ ms, m.2.init = none) →
      AllReceived (receiveAll bob bobId aliceId fresh 0 store' (relay dropped i ms)) →
        relay dropped i ms = [] := by
    intro i ms hms hall
    rw [receiveAll_null hpeer fresh 0 fun m hm => hms m (relay_subset i ms m hm)] at hall
    cases hrelay : relay dropped i ms with
    | nil => rfl
    | cons m rest =>
      have := hall (m.1, .ok none) (by simp [hrelay])
      simp at this
  cases hs : store (pairKey aliceId bobId) with
  | some session =>
    -- no wire carries an init message
    have hempty : first ↔ relay dropped 0 wires = [] := by simp [first, hs]
    rw [hempty]
    apply And.intro
    · exact hnull 0 wires (init_eq_none hs msgs)
    · intro hrelay _
      simp [results, hrelay, receiveAll, AllReceived]
  | none =>
    rcases sendAll_first alice (buildBundle bob) hs msgs with
      hw | ⟨m, ms, session, wire, hsend, hw⟩
    · have hrelay : relay dropped 0 wires = [] := by simp only [wires, hw, relay]
      exact ⟨fun _ => .inl hrelay, fun _ _ => by simp [results, hrelay, receiveAll, AllReceived]⟩
    · cases hdrop : dropped 0 with
      | true =>
        have hrelay : relay dropped 0 wires = relay dropped 1 wires.tail := by
          simp [wires, hw, relay, hdrop]
        have hempty : first ↔ relay dropped 0 wires = [] := by simp [first, hdrop]
        rw [hempty]
        apply And.intro
        · intro hall
          rw [hrelay]
          refine hnull 1 _ ?_ (by rw [← hrelay]; exact hall)
          simp only [wires, hw, List.tail_cons]
          exact init_eq_none (Function.update_self ..) ms
        · intro hempty _
          simp [results, hempty, receiveAll, AllReceived]
      | false =>
        refine ⟨fun _ => .inr ⟨hs, hdrop⟩, fun _ hlen => ?_⟩
        obtain ⟨sk, x, y, init, session', hsync, -, hinit, hresp, hsync', hcache, hxy⟩ :=
          responded hcomm haead hsend (fresh 0)
        have hdec : drDecrypt bob store' bobId aliceId wire (fresh 0) =
            (Function.update store' (pairKey bobId aliceId) (some session'),
              .ok (some m.plaintext)) := by
          simp only [drDecrypt, decryptAt, hpeer, sessionDecrypt, hinit, hresp, Except.map]
        simp only [wires, hw, List.length_cons, List.range'_succ, List.countP_cons, hdrop,
          Bool.false_eq_true, if_false, toNat_MAX_SKIP, Nat.zero_add] at hlost hlen
        have hms : Numbered sk x 1 (sendAll alice (buildBundle bob) aliceId bobId
            (Function.update store (pairKey aliceId bobId) (some session)) ms) :=
          sendAll_numbered (Function.update_self ..) hsync ms
        have hall : AllReceived (receiveAll bob bobId aliceId fresh 1
            (Function.update store' (pairKey bobId aliceId) (some session')) (relay dropped 1 _)) :=
          receiveAll_numbered haead (Function.update_self ..) hsync' hxy (by simp [hcache]) fresh 1
            hms (Nat.le_refl _) (by omega) (by omega)
        simp only [results, wires, hw, relay, hdrop, Bool.false_eq_true, if_false, receiveAll, hdec]
        rintro m' (_ | ⟨_, hm'⟩)
        · rfl
        · exact hall m' hm'

end

def sampleSends : List (Send symbolic) :=
  [⟨[7], keyPair 30, keyPair 31⟩, ⟨[8], keyPair 32, keyPair 33⟩, ⟨[9], keyPair 34, keyPair 35⟩]

def sampleWires : List (Bytes × Wire symbolic) :=
  sendAll (sampleIdentity 10) (buildBundle (sampleIdentity 20)) 1 2 (fun _ => none) sampleSends

/-- The second of three wires is dropped. -/
theorem all_received_sample : AllReceived (receiveAll (sampleIdentity 20) 2 1 (fun _ => keyPair 40) 0
    (fun _ => none) (relay (fun i => i == 1) 0 sampleWires)) :=
  (all_received_iff symbolic_dhCommutes symbolic_aeadInverts rfl sampleSends (fun i => i == 1)
    (fun _ => keyPair 40) (by decide +kernel)).2 (.inr ⟨rfl, rfl⟩) (by decide +kernel)

/-- The first of three wires is dropped, the other two are relayed. -/
theorem not_all_received :
    (List.range' 0 sampleWires.length).countP (fun i => i == 0) < MAX_SKIP.toNat ∧
      ¬ AllReceived (receiveAll (sampleIdentity 20) 2 1 (fun _ => keyPair 40) 0 (fun _ => none)
        (relay (fun i => i == 0) 0 sampleWires)) := by
  exact ⟨by decide +kernel, by decide +kernel⟩

end Vesper.Client
