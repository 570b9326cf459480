import Vesper.Ratchet.ForwardSecrecy
import Vesper.Group.Channel

/-!
# Forward secrecy of the stored states

The sender key states hold one chain key and the keys put aside: what was consumed is not exposed,
over any number of iterations (the counter may wrap). `forward_secrecy` says it of all three kinds
of state.
-/

namespace Vesper.SenderKey
open DoubleRatchet (chainKey messageKey chainKey_chainKey messageKey_chainKey size_chainKey
  composed_messageKey)
open Symbolic (Term Deduces Derives Composed)

/-- The keys in a sender state; the signing key is of another kind. -/
def SenderState.Holds (s : SenderState symbolic) (t : symbolic.Block) : Prop := t = s.chainKey

def SenderState.Exposes (s : SenderState symbolic) (t : symbolic.Block) : Prop :=
  Deduces (fun _ => False) s.Holds t

/-- The keys in a receiver state. -/
def ReceiverState.Holds (s : ReceiverState symbolic) (t : symbolic.Block) : Prop :=
  t = s.chainKey ∨ ∃ q : UInt32, s.skipped[q]? = some t

def ReceiverState.Exposes (s : ReceiverState symbolic) (t : symbolic.Block) : Prop :=
  Deduces (fun _ => False) s.Holds t

/-! ## One chain -/

section
variable {ck : symbolic.Block} {i j n : Nat} {known : symbolic.Block → Prop}

theorem size_messageKey (ck : symbolic.Block) (j : Nat) :
    Term.size (messageKey ck j) = Term.size ck + j + 1 :=
  congrArg (· + 1) (size_chainKey ck j)

theorem chainKey_inj (h : chainKey ck i = chainKey ck j) : i = j := by
  have hsize := congrArg Term.size h
  rw [size_chainKey, size_chainKey] at hsize
  omega

theorem messageKey_inj (h : messageKey ck i = messageKey ck j) : i = j := by
  have hsize := congrArg Term.size h
  rw [size_messageKey, size_messageKey] at hsize
  omega

theorem chainKey_ne_messageKey : chainKey ck i ≠ messageKey ck j := by
  intro h
  have hsize := congrArg Term.size h
  rw [size_chainKey, size_messageKey] at hsize
  obtain rfl : i = j + 1 := by omega
  exact absurd (Term.hmac.inj h).2 (by decide)

/-- The chain key after a message key, and the keys of other messages, do not expose it. -/
theorem not_deduces_messageKey (hck : ¬ Derives (fun _ => False) ck) (hj : j < n)
    (hknown : ∀ t, known t → t = chainKey ck n ∨ ∃ k, k ≠ j ∧ t = messageKey ck k) :
    ¬ Deduces (fun _ => False) known (messageKey ck j) := by
  have hkey : ∀ t, known t → t.IsKey ∧ Term.size ck < Term.size t := by
    intro t ht
    rcases hknown t ht with rfl | ⟨k, -, rfl⟩
    · obtain ⟨n, rfl⟩ := Nat.exists_eq_succ_of_ne_zero (Nat.ne_zero_of_lt hj)
      exact ⟨trivial, by rw [size_chainKey]; omega⟩
    · exact ⟨trivial, by rw [size_messageKey]; omega⟩
  have hmk : ¬ known (messageKey ck j) := fun hheld => by
    rcases hknown _ hheld with heq | ⟨k, hne, heq⟩
    · exact chainKey_ne_messageKey heq.symm
    · exact hne (messageKey_inj heq.symm)
  intro hded
  rcases composed_messageKey (hded.composed fun t ht => (hkey t ht).1) hmk with ⟨k, hk, hheld⟩ | hc
  · rcases hknown _ hheld with heq | ⟨k', -, heq⟩
    · obtain rfl := chainKey_inj heq
      omega
    · exact chainKey_ne_messageKey heq
  · refine hck (hc.derives fun k hk hpart => ?_)
    exact absurd hpart.size_le (Nat.not_le.mpr (hkey k hk).2)

/-- A message key of the chain before position `n`. -/
def DrawnBefore (ck : symbolic.Block) (n : Nat) (mk : symbolic.Block) : Prop :=
  ∃ j < n, mk = messageKey ck j

theorem DrawnBefore.mono {mk : symbolic.Block} (h : DrawnBefore ck n mk) {n' : Nat} (hn : n ≤ n') :
    DrawnBefore ck n' mk := h.imp fun _ h => ⟨Nat.lt_of_lt_of_le h.1 hn, h.2⟩

theorem not_drawnBefore : ¬ DrawnBefore ck n (messageKey ck n) := fun ⟨_, hj, heq⟩ =>
  Nat.ne_of_lt hj (messageKey_inj heq).symm

theorem drawnBefore_succ : DrawnBefore ck (n + 1) (messageKey ck n) := ⟨n, Nat.lt_succ_self n, rfl⟩

end

/-! ## The two states -/

section
variable {ck : symbolic.Block} {n : Nat} {tried : symbolic.Block → Prop}
  {skipped : Std.ExtTreeMap UInt32 symbolic.Block} {s : ReceiverState symbolic}

/-- A receiver at position `n` of the chain, whose keys are all accounted for. -/
structure Holding (ck : symbolic.Block) (n : Nat) (tried : symbolic.Block → Prop)
    (s : ReceiverState symbolic) : Prop where
  chainKey : s.chainKey = chainKey ck n
  ring : OneTime.Ring (DrawnBefore ck n) s.skipped tried

theorem ring_fill (h : OneTime.Ring (DrawnBefore ck n) skipped tried) (iteration : UInt32)
    (k : Nat) :
    OneTime.Ring (DrawnBefore ck (n + k)) (fill (chainKey ck n) iteration k skipped) tried := by
  induction k generalizing n iteration skipped with
  | zero => exact h
  | succ k ih =>
    have hput := h.put (fun _ h => h.mono (Nat.le_succ n)) not_drawnBefore drawnBefore_succ
      iteration
    rw [← Nat.add_assoc, Nat.add_right_comm]
    exact ih hput (iteration + 1)

/-- Whatever the iteration asked for, the key handed out was never handed out before. -/
theorem Holding.messageKeyFor (h : Holding ck n tried s) (t : UInt32) :
    ∃ n', Holding ck n' (fun mk => tried mk ∨ (s.messageKeyFor t).2 = .ok mk)
      (s.messageKeyFor t).1 := by
  have hsame : ∀ {f : Fault}, s.messageKeyFor t = (s, .error f) →
      Holding ck n (fun mk => tried mk ∨ (s.messageKeyFor t).2 = .ok mk) (s.messageKeyFor t).1 := by
    intro f hf
    rw [hf]
    exact ⟨h.chainKey, h.ring.mono (fun _ => id) (by simp)⟩
  cases hmk : s.skipped[t]? with
  | some mk =>
    rw [messageKeyFor_cached hmk]
    refine ⟨n, h.chainKey, (h.ring.take hmk).mono (fun _ => id) ?_⟩
    exact fun mk' => Or.imp_right fun heq => (Except.ok.inj heq).symm
  | none =>
    by_cases hbehind : t.toNat < s.iteration.toNat
    · exact ⟨n, hsame (messageKeyFor_behind hmk hbehind)⟩
    by_cases hlimit : s.iteration.toNat + MAX_SKIP.toNat < t.toNat
    · exact ⟨n, hsame (messageKeyFor_limit hmk hlimit)⟩
    rw [messageKeyFor_ahead hmk (Nat.not_lt.mp hbehind) (Nat.not_lt.mp hlimit), h.chainKey,
      messageKey_chainKey, chainKey_chainKey]
    refine ⟨_, rfl, ?_⟩
    refine ((ring_fill h.ring s.iteration _).draw (fun _ h => h.mono (Nat.le_succ _))
      not_drawnBefore drawnBefore_succ).mono (fun _ => id) ?_
    exact fun mk' => Or.imp_right fun heq => (Except.ok.inj heq).symm

/-- What the receiver has handed out is not exposed. -/
theorem Holding.not_exposes (h : Holding ck n tried s) (hck : ¬ Derives (fun _ => False) ck)
    {mk : symbolic.Block} (hmk : tried mk) : ¬ s.Exposes mk := by
  obtain ⟨⟨j, hj, rfl⟩, hgone⟩ := h.ring.tried mk hmk
  refine not_deduces_messageKey hck hj fun t ht => ?_
  rcases ht with rfl | ⟨q, hq⟩
  · exact .inl h.chainKey
  · obtain ⟨k, -, rfl⟩ := h.ring.cached q t hq
    refine .inr ⟨k, ?_, rfl⟩
    rintro rfl
    exact hgone q hq

end

variable {G : Seed symbolic} {c : Channel symbolic}

/-- A message that was decrypted was sealed with `mk`. -/
def Channel.OpenedWith (c : Channel symbolic) (mk : symbolic.Block) : Prop :=
  ∃ m ∈ c.accepted, m.ciphertext.key? = some mk

/-- A message that was sent is sealed with `mk`. -/
def Channel.SealedWith (c : Channel symbolic) (mk : symbolic.Block) : Prop :=
  ∃ m ∈ c.sent, m.1.ciphertext.key? = some mk

/-- Both sides keep their books. -/
structure Thrifty (G : Seed symbolic) (c : Channel symbolic) : Prop where
  sender : ∃ n, c.sender.chainKey = chainKey G.chainKey n ∧
    ∀ mk, c.SealedWith mk → DrawnBefore G.chainKey n mk
  receiver : ∀ r, c.receiver = some r → ∃ n, Holding G.chainKey n c.OpenedWith r
  fresh : c.receiver = none → c.accepted = []

theorem Seed.thrifty (G : Seed symbolic) : Thrifty G G.channel.init := by
  refine ⟨⟨0, rfl, ?_⟩, ?_, fun _ => rfl⟩
  · rintro mk ⟨m, hm, -⟩
    cases hm
  · exact nofun

theorem Thrifty.encrypt (h : Thrifty G c) (plaintext : Bytes) : Thrifty G (c.encrypt plaintext) := by
  obtain ⟨n, hchain, hsealed⟩ := h.sender
  refine ⟨⟨n + 1, ?_, ?_⟩, h.receiver, h.fresh⟩
  · have hsender : (c.encrypt plaintext).sender.chainKey = chainKey c.sender.chainKey 1 :=
      congrArg SenderState.chainKey (encrypt_fst _ plaintext)
    rw [hsender, hchain, chainKey_chainKey]
  · rintro mk ⟨m, hm, hmk⟩
    rcases List.mem_append.mp hm with hm | hm
    · exact (hsealed mk ⟨m, hm, hmk⟩).mono (Nat.le_succ n)
    · split at hm
      · next msg henc =>
        have hseal := (encrypt_ok (s := c.sender) henc).sealed
        rw [hchain, messageKey_chainKey] at hseal
        rw [List.mem_singleton.mp hm, ← Except.ok.inj hseal] at hmk
        exact Option.some.inj hmk ▸ drawnBefore_succ
      · cases hm

theorem Thrifty.join (h : Thrifty G c) (hnone : c.receiver = none) : Thrifty G c.join := by
  obtain ⟨n, hchain, -⟩ := h.sender
  refine ⟨h.sender, ?_, nofun⟩
  rintro r hr
  obtain rfl := Option.some.inj hr
  have haccepted : c.join.accepted = [] := h.fresh hnone
  refine ⟨n, hchain, OneTime.Ring.empty ?_⟩
  rintro mk ⟨m, hm, -⟩
  rw [haccepted] at hm
  cases hm

theorem Thrifty.deliver (h : Thrifty G c) (msg : SenderKeyMessage symbolic) :
    Thrifty G (c.deliver msg) := by
  cases hr : c.receiver with
  | none => simpa only [Channel.deliver, hr] using h
  | some r =>
    obtain ⟨n, hold⟩ := h.receiver r hr
    have hsender := h.sender
    cases hv : r.signingPub.verify symbolic msg.payload msg.signature with
    | error e => rwa [deliver_rejected hr (decrypt_unverified hv)]
    | ok =>
      have hdec := decrypt_verified hv
      obtain ⟨n', hold'⟩ := hold.messageKeyFor msg.iteration
      simp only [Channel.deliver, hr, hdec]
      refine ⟨hsender, ?_, fun hnone => by cases hnone⟩
      rintro r' hr'
      obtain rfl := Option.some.inj hr'
      refine ⟨n', hold'.chainKey, hold'.ring.mono (fun _ => id) ?_⟩
      rintro mk ⟨m, hm, hmk⟩
      rcases List.mem_append.mp hm with hm | hm
      · exact .inl ⟨m, hm, hmk⟩
      · split at hm
        · next p hok =>
          obtain ⟨mk', hgot, hopen⟩ : ∃ mk', (r.messageKeyFor msg.iteration).2 = .ok mk' ∧
              aeadDecrypt symbolic mk' (iterationNonce msg.iteration) msg.ciphertext
                (messageAad msg.keyId msg.iteration) = .ok p := bind_eq_ok.mp hok
          rw [symbolic_aeadDecrypt_ok_iff] at hopen
          rw [List.mem_singleton.mp hm, hopen] at hmk
          obtain rfl := Option.some.inj hmk
          exact .inr hgot
        · cases hm

theorem thrifty_of_reachable (hc : G.channel.Reachable c) : Thrifty G c := by
  refine Machine.Reachable.invariant (M := G.channel) (I := Thrifty G) G.thrifty ?_ hc
  rintro c e - h henabled
  cases e with
  | encrypt plaintext => exact h.encrypt plaintext
  | join => exact h.join (Option.isNone_iff_eq_none.mp henabled)
  | deliver msg => exact h.deliver msg

end Vesper.SenderKey

namespace Vesper
open DoubleRatchet SenderKey Symbolic

/-- **Forward secrecy**: in every run, the whole of a party's `RatchetState` exposes no key of a
message that it sent or accepted, and the states of a group's sender and receiver expose no key of
an iteration that they consumed. -/
theorem forward_secrecy {S : Start symbolic} {w : World symbolic} {who : Side} {G : Seed symbolic}
    {c : Channel symbolic} (hw : S.session.Reachable w)
    (hsk : ¬ Derives (fun name => name = (w.state who).dhs.name) S.sk)
    (hc : G.channel.Reachable c) (hck : ¬ Derives (fun _ => False) G.chainKey) :
    (∀ mk, some mk ∈ sealingKeys (w.sent who) ∨ AcceptedUnder (w.accepted who) mk →
      ¬ (w.state who).Exposes mk) ∧
    (∀ mk, c.SealedWith mk → ¬ c.sender.Exposes mk) ∧
    ∀ r, c.receiver = some r → ∀ mk, c.OpenedWith mk → ¬ r.Exposes mk := by
  have h := thrifty_of_reachable hc
  refine ⟨fun mk => not_exposes_past hw hsk, fun mk hmk => ?_, fun r hr mk hmk => ?_⟩
  · obtain ⟨n, hchain, hsealed⟩ := h.sender
    obtain ⟨j, hj, rfl⟩ := hsealed mk hmk
    exact not_deduces_messageKey hck hj fun t ht => .inl (ht.trans hchain)
  · obtain ⟨n, hold⟩ := h.receiver r hr
    exact hold.not_exposes hck hmk

theorem forward_secrecy_sample :
    (∀ mk, some mk ∈ sealingKeys (sampleWorld.sent .alice) ∨
        AcceptedUnder (sampleWorld.accepted .alice) mk → ¬ (sampleWorld.state .alice).Exposes mk) ∧
      (∀ mk, sampleChannel.SealedWith mk → ¬ sampleChannel.sender.Exposes mk) ∧
      ∀ r, sampleChannel.receiver = some r → ∀ mk, sampleChannel.OpenedWith mk → ¬ r.Exposes mk :=
  forward_secrecy
    (Machine.Reachable.init.exec (by decide +kernel : Machine.Allowed _ _ sampleRun))
    Derives.not_atom sampleChannel_reachable.of_restrict Derives.not_atom

end Vesper
