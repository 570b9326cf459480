import Vesper.Client.Convergence
import Vesper.Ratchet.Authenticity

/-!
# Replays of 1:1 wires

One entry of the `ratchet` store against a network that presents any wires, any number of times.
As long as no session is rebuilt from an init message that one was built from before, every
message key opens one wire only, so a wire that was decrypted once is rejected and the stored
session stays as it is.
-/

namespace Vesper.Client
open DoubleRatchet X3dh
open Symbolic (Term)

/-! ## Entries -/

/-- The keys that a client uses for one entry: the identity key with which it starts sessions, and
the keys with which it reads init messages. -/
structure EntryKeys where
  own : KeyName
  ikDh : KeyName
  spk : KeyName
  distinct : own.name ≠ spk.name

/-- An entry of the store and its history: the wires decrypted so far, those of them from which a
session was built, and the init messages of all sessions built, the client's own among them. -/
structure Entry where
  session : Option (RatchetState symbolic)
  opened : List (Wire symbolic)
  built : List (Wire symbolic)
  inits : List X3dhInitMessage

inductive EntryCall where
  | encrypt (peerBundle : Except Thrown (X3dhBundle symbolic)) (plaintext : Bytes)
    (ek fresh : KeyName)
  | decrypt (wire : Wire symbolic) (fresh : KeyName)
  | delete

def parsedInit (wire : Wire symbolic) : Option X3dhInitMessage :=
  wire.init.bind fun initMsg => (parseInit initMsg).toOption

/-- The stored session reads the wire. -/
def reads (session : Option (RatchetState symbolic)) (wire : Wire symbolic) (fresh : KeyName) :
    Bool :=
  match session with
  | some s => (ratchetDecrypt s wire.dr fresh).isOk
  | none => false

def Entry.next (K : EntryKeys) (w : Entry) : EntryCall → Entry
  | .encrypt peerBundle plaintext ek fresh =>
    match sessionEncrypt K.own peerBundle w.session plaintext ek fresh with
    | .ok (s, wire) => { w with session := some s, inits := w.inits ++ (parsedInit wire).toList }
    | .error _ => w
  | .decrypt wire fresh =>
    match sessionDecrypt K.ikDh K.spk w.session wire fresh with
    | .ok (some (s, _)) =>
      if reads w.session wire fresh then { w with session := some s, opened := w.opened ++ [wire] }
      else
        { session := some s, opened := w.opened ++ [wire], built := w.built ++ [wire],
          inits := w.inits ++ (parsedInit wire).toList }
    | _ => w
  | .delete => { w with session := none }

/-- The ephemeral key of a new session is new. -/
def Entry.Fresh (w : Entry) : EntryCall → Prop
  | .encrypt _ _ ek _ => ∀ init ∈ w.inits, init.ek ≠ ek.name
  | _ => True

/-- An init message from which a session of the pair was built is not presented again. -/
def Entry.Unrepeated (w : Entry) : EntryCall → Prop
  | .decrypt wire _ => ∀ init, parsedInit wire = some init → init ∉ w.inits
  | _ => True

def entry (K : EntryKeys) : Machine Entry EntryCall where
  init := ⟨none, [], [], []⟩
  enabled := Entry.Fresh
  next := Entry.next K

instance (K : EntryKeys) (w : Entry) : ∀ e, Decidable ((entry K).enabled w e)
  | .encrypt _ _ ek _ => inferInstanceAs (Decidable (∀ init ∈ w.inits, init.ek ≠ ek.name))
  | .decrypt .. | .delete => .isTrue trivial

instance (w : Entry) : ∀ e, Decidable (w.Unrepeated e)
  | .decrypt wire fresh => decidable_of_iff (∀ init ∈ parsedInit wire, init ∉ w.inits) <| by
      simp [Entry.Unrepeated]
  | .encrypt .. | .delete => .isTrue trivial

/-! ## The shared secrets of the sessions -/

/-- A session with the shared secret `sk` was built from `init`: read from it, or started with it. -/
def RootOf (K : EntryKeys) (init : X3dhInitMessage) (sk : symbolic.Block) : Prop :=
  x3dhReceive K.ikDh K.spk none init = .ok sk ∨
    ∃ bundle ek, x3dhSend (P := symbolic) K.own bundle ek = .ok ⟨sk, init⟩

variable {K : EntryKeys} {init init' : X3dhInitMessage} {sk sk' : symbolic.Block}

theorem RootOf.unratcheted (h : RootOf K init sk) : Unratcheted sk := by
  have hroot : ∃ prk, sk = .expand prk X3dh.INFO 0 := by
    rcases h with h | ⟨bundle, ek, h⟩
    · exact ⟨_, (x3dhReceive_ok_iff.mp h).2⟩
    · obtain ⟨rest, hsk, -⟩ := x3dhSend_eq h
      exact ⟨_, hsk⟩
  obtain ⟨prk, rfl⟩ := hroot
  intro prk' heq
  exact absurd (Term.expand.inj heq).2.1 (by decide)

theorem rounds_inj {salt : symbolic.Block} {ts us : List symbolic.Block}
    (h : symbolic.hkdfBlock (symbolic.hkdfExtract (some salt) ts) INFO 0 =
      symbolic.hkdfBlock (symbolic.hkdfExtract (some salt) us) INFO 0) : ts = us :=
  Term.cats_inj.mp (Term.extract.inj (Term.expand.inj h).1).2

theorem shared_right_inj {a b c : KeyAgreementPublicKey} (h : Term.shared a b = Term.shared a c) :
    b = c := by
  rcases Term.shared_eq_iff.mp h with ⟨-, h⟩ | ⟨rfl, rfl⟩
  · exact h
  · rfl

/-- A session read from an init message shares its secret with no session built from another. -/
theorem RootOf.received (h : x3dhReceive K.ikDh K.spk none init' = .ok sk')
    (hold : RootOf K init sk) (hne : init' ≠ init) : sk' ≠ sk := by
  rintro rfl
  obtain ⟨hopk, hsk⟩ := x3dhReceive_ok_iff.mp h
  rcases hold with hold | ⟨bundle, ek, hold⟩
  · obtain ⟨hopk', hsk'⟩ := x3dhReceive_ok_iff.mp hold
    have hrounds := rounds_inj (hsk.symm.trans hsk')
    simp only [List.cons.injEq, true_and, and_true] at hrounds
    obtain ⟨h1, -, h3⟩ := hrounds
    have hik := shared_right_inj h1
    have hek := shared_right_inj h3
    cases init
    cases init'
    simp_all
  · obtain ⟨rest, hsk', hik, hek, hopk'⟩ := x3dhSend_eq hold
    have hrounds := rounds_inj (hsk.symm.trans hsk')
    simp only [List.cons.injEq, true_and] at hrounds
    obtain ⟨h1, -, h3, hrest⟩ := hrounds
    rcases Term.shared_eq_iff.mp h1 with ⟨hspk, -⟩ | ⟨hspk, hown⟩
    · exact K.distinct hspk.symm
    · -- the bundle held the client's own prekey, so the init message is its own
      rw [← hspk] at h3
      have hek' : init'.ek = ek.name := by
        rcases Term.shared_eq_iff.mp h3 with ⟨ha, hb⟩ | ⟨-, hb⟩
        · rw [hb, ← ha]
        · exact hb
      rw [← hrest] at hopk'
      cases init
      cases init'
      simp_all

/-- A session started with a new ephemeral key shares its secret with no earlier one. -/
theorem RootOf.sent {bundle : X3dhBundle symbolic} {ek : KeyName}
    (h : x3dhSend (P := symbolic) K.own bundle ek = .ok ⟨sk', init'⟩) (hold : RootOf K init sk)
    (hne : init.ek ≠ ek.name) : sk' ≠ sk := by
  rintro rfl
  obtain ⟨rest, hsk, -⟩ := x3dhSend_eq h
  rcases hold with hold | ⟨bundle', ek', hold⟩
  · obtain ⟨-, hsk'⟩ := x3dhReceive_ok_iff.mp hold
    have hrounds := rounds_inj (hsk.symm.trans hsk')
    simp only [List.cons.injEq, true_and] at hrounds
    obtain ⟨h1, -, h3, -⟩ := hrounds
    rcases Term.shared_eq_iff.mp h1 with ⟨hown, -⟩ | ⟨-, hspk⟩
    · exact K.distinct hown
    · rw [hspk] at h3
      rcases Term.shared_eq_iff.mp h3 with ⟨ha, hb⟩ | ⟨ha, -⟩
      · exact hne (by rw [← hb, ← ha])
      · exact hne ha.symm
  · obtain ⟨rest', hsk', -, hek, -⟩ := x3dhSend_eq hold
    have hrounds := rounds_inj (hsk.symm.trans hsk')
    simp only [List.cons.injEq, true_and] at hrounds
    obtain ⟨h1, -, h3, -⟩ := hrounds
    have hspk := shared_right_inj h1
    rw [hspk] at h3
    rcases Term.shared_eq_iff.mp h3 with ⟨ha, -⟩ | ⟨ha, hb⟩
    · exact hne (hek.trans ha.symm)
    · exact hne (hek.trans (hb.symm.trans ha.symm))

/-! ## Every message key opens one wire -/

/-- A message key of a session with the shared secret `sk`. -/
def InTree (sk mk : symbolic.Block) : Prop :=
  ∃ es j, es ≠ [] ∧ mk = messageKey (chainSeed sk es) j

/-- The ratchet message of the wire is sealed with `mk`. -/
def SealedUnder (mk : symbolic.Block) (wire : Wire symbolic) : Prop :=
  ∃ header nonce p aad, wire.dr = some (header, .box mk nonce p aad)

variable {mk : symbolic.Block} {ds : List symbolic.Block} {i r : Nat} {s s' : RatchetState symbolic}
  {spent : symbolic.Block → Prop} {v : Wire symbolic} {p : Bytes} {fresh : KeyName} {w : Entry}

theorem InTree.root (h : InTree sk mk) (h' : InTree sk' mk) (hroot : RootOf K init sk)
    (hroot' : RootOf K init' sk') : sk = sk' := by
  obtain ⟨es, j, hes, rfl⟩ := h
  obtain ⟨es', j', hes', heq⟩ := h'
  exact hroot.unratcheted.messageKey hroot'.unratcheted hes hes' heq

theorem SealedUnder.inj {mk' : symbolic.Block} (h : SealedUnder mk v) (h' : SealedUnder mk' v) :
    mk = mk' := by
  obtain ⟨_, _, _, _, h⟩ := h
  obtain ⟨_, _, _, _, h'⟩ := h'
  cases h.symm.trans h'
  rfl

/-- A session reads a wire with a key of its own that was not used before. -/
theorem tracked_ratchetDecrypt (h : Tracked sk ds i r s spent)
    (hdec : ratchetDecrypt s v.dr fresh = .ok (s', p)) :
    ∃ mk ds' i' r', SealedUnder mk v ∧ InTree sk mk ∧ ¬ spent mk ∧
      Tracked sk ds' i' r' s' (fun m => spent m ∨ m = mk) := by
  obtain ⟨header, c, hdr, hdec⟩ := ratchetDecrypt_ok_iff.mp hdec
  obtain ⟨mk, hadv, rfl⟩ := decrypt_ok_symbolic.mp (congrArg Prod.snd hdec)
  obtain ⟨⟨ds', i', r', -, h'⟩, hspent⟩ := h.advance header fresh
  obtain ⟨⟨es, j, hes, -, -, hmk⟩, -⟩ := h'.ring.spent mk (.inr hadv)
  have hs : (advance s header fresh).1 = s' := by
    rw [decrypt_eq] at hdec
    exact congrArg Prod.fst hdec
  rw [hs] at h'
  refine ⟨mk, ds', i', r', ⟨_, _, _, _, hdr⟩, ⟨es, j, hes, hmk⟩, hspent mk hadv, h'.lineage,
    h'.ring.weaken ?_⟩
  rintro m (hm | rfl)
  · exact .inl hm
  · exact .inr hadv

/-- All keys of an entry are accounted for: those of the wires decrypted belong to the sessions
built so far, and the stored session has used up those of them that are its own. -/
structure Accounted (K : EntryKeys) (w : Entry) : Prop where
  opened : ∀ v ∈ w.opened, ∃ mk init sk, SealedUnder mk v ∧ init ∈ w.inits ∧ RootOf K init sk ∧
    InTree sk mk
  session : ∀ s, w.session = some s → ∃ init sk ds i r, init ∈ w.inits ∧ RootOf K init sk ∧
    Tracked sk ds i r s fun mk => (∃ v ∈ w.opened, SealedUnder mk v) ∧ InTree sk mk
  built : ∀ v ∈ w.built, v ∈ w.opened ∧ ∃ initMsg fresh s p, v.init = some initMsg ∧
    respond K.ikDh K.spk initMsg v.dr fresh = .ok (s, p)

/-- No key of a session that shares its secret with no earlier one was used. -/
theorem Accounted.unused (h : Accounted K w) (hroot : RootOf K init sk)
    (hnew : ∀ init' ∈ w.inits, ∀ sk', RootOf K init' sk' → sk ≠ sk') (hmk : InTree sk mk) :
    ¬ ∃ v ∈ w.opened, SealedUnder mk v := by
  rintro ⟨v, hv, hseal⟩
  obtain ⟨mk', init', sk', hseal', hmem, hroot', htree⟩ := h.opened v hv
  obtain rfl := hseal.inj hseal'
  exact hnew init' hmem sk' hroot' (hmk.root htree hroot hroot')

variable (fresh) in
/-- The stored session does not read a wire a second time. -/
theorem Accounted.not_reads (h : Accounted K w) (hv : v ∈ w.opened) (hs : w.session = some s) :
    ∃ e, ratchetDecrypt s v.dr fresh = .error e := by
  cases hdec : ratchetDecrypt s v.dr fresh with
  | error e => exact ⟨e, rfl⟩
  | ok result =>
    obtain ⟨init, sk, ds, i, r, -, -, ht⟩ := h.session s hs
    obtain ⟨mk, -, -, -, hseal, htree, hspent, -⟩ := tracked_ratchetDecrypt ht hdec
    exact absurd ⟨⟨v, hv, hseal⟩, htree⟩ hspent

theorem receiveInit_ok {initMsg : Bytes} (h : receiveInit (P := symbolic) K.ikDh K.spk initMsg =
      .ok sk) : ∃ init, (parseInit initMsg).toOption = some init ∧
      x3dhReceive K.ikDh K.spk none init = .ok sk := by
  simp only [receiveInit, bind_eq_ok, liftWasm_eq_ok] at h
  obtain ⟨init, hparse, hsk⟩ := h
  exact ⟨init, by rw [hparse]; rfl, hsk⟩

theorem tracked_initReceiver (h : ∀ mk, ¬ spent mk) (b : KeyName) :
    Tracked sk [] 0 0 (initReceiver symbolic sk b) spent :=
  ⟨Lineage.of_initReceiver (P := symbolic) b, KeyRing.empty h⟩

/-- What a new session reads was never read before. -/
theorem Accounted.respond (h : Accounted K w) {initMsg : Bytes} (hinit : v.init = some initMsg)
    (hnew : ∀ init, parsedInit v = some init → init ∉ w.inits)
    (hresp : respond K.ikDh K.spk initMsg v.dr fresh = .ok (s', p)) :
    ∃ init sk mk ds i r, parsedInit v = some init ∧ RootOf K init sk ∧ SealedUnder mk v ∧
      InTree sk mk ∧ (∀ m, InTree sk m → ¬ ∃ v ∈ w.opened, SealedUnder m v) ∧
      Tracked sk ds i r s' (fun m => m = mk) := by
  obtain ⟨sk, header, c, hsk, hdr, hdec⟩ := respond_ok_iff.mp hresp
  obtain ⟨init, hparse, hrecv⟩ := receiveInit_ok hsk
  have hparsed : parsedInit v = some init := by rw [parsedInit, hinit]; exact hparse
  obtain ⟨mk, ds, i, r, hseal, htree, -, ht⟩ := tracked_ratchetDecrypt
    (tracked_initReceiver (fun _ => id) K.spk)
    (ratchetDecrypt_ok_iff.mpr ⟨header, c, hdr, hdec⟩)
  refine ⟨init, sk, mk, ds, i, r, hparsed, .inl hrecv, hseal, htree, fun m hm =>
    h.unused (.inl hrecv) (fun init' hmem sk' hroot => hroot.received hrecv ?_) hm, ht.lineage,
    ht.ring.weaken fun m hm => .inr hm⟩
  rintro rfl
  exact hnew _ hparsed hmem

theorem parsedInit_initBytes (hinit : v.init = some (initBytes init)) :
    parsedInit v = some init := by
  rw [parsedInit, hinit]
  simp [Except.toOption]

theorem Accounted.encrypt (h : Accounted K w) {peerBundle : Except Thrown (X3dhBundle symbolic)}
    {plaintext : Bytes} {ek : KeyName} (he : w.Fresh (.encrypt peerBundle plaintext ek fresh)) :
    Accounted K (w.next K (.encrypt peerBundle plaintext ek fresh)) := by
  simp only [Entry.next]
  cases henc : sessionEncrypt K.own peerBundle w.session plaintext ek fresh with
  | error e => exact h
  | ok result =>
    obtain ⟨s', wire⟩ := result
    dsimp only
    cases hs : w.session with
    | some s =>
      -- the stored session sends, and no session is built
      rw [hs] at henc
      obtain ⟨message, hmsg, rfl⟩ := sessionEncrypt_some.mp henc
      obtain ⟨init, sk, ds, i, r, hmem, hroot, ht⟩ := h.session s hs
      obtain ⟨i', hlin, hskipped⟩ := ht.lineage.encrypt plaintext []
      rw [hmsg] at hlin hskipped
      have hinits : w.inits ++ (parsedInit ⟨none, some message⟩).toList = w.inits := by
        simp [parsedInit]
      rw [hinits]
      refine ⟨h.opened, ?_, h.built⟩
      rintro _ ⟨rfl⟩
      exact ⟨init, sk, ds, i', r, hmem, hroot, hlin, by rw [hskipped]; exact ht.ring⟩
    | none =>
      rw [hs] at henc
      cases peerBundle with
      | error e => cases henc
      | ok bundle =>
        obtain ⟨s, initMsg, message, hinit, hmsg, rfl⟩ := sessionEncrypt_none.mp henc
        obtain ⟨out, hout, hsender, rfl⟩ := initiate_ok_iff.mp hinit
        have hroot : RootOf K out.init out.sk := .inr ⟨bundle, ek, hout⟩
        have hunused : ∀ m, InTree out.sk m → ¬ ∃ v ∈ w.opened, SealedUnder m v := fun m hm =>
          h.unused hroot (fun init hmem sk hold => hold.sent hout (he init hmem)) hm
        obtain ⟨hlin, hempty⟩ := Lineage.of_initSender hsender
        obtain ⟨i', hlin', hskipped⟩ := hlin.encrypt plaintext []
        rw [hmsg] at hlin' hskipped
        rw [parsedInit_initBytes rfl]
        constructor
        · intro v hv
          obtain ⟨mk, init, sk, hseal, hmem, hroot', htree⟩ := h.opened v hv
          exact ⟨mk, init, sk, hseal, List.mem_append_left _ hmem, hroot', htree⟩
        · rintro _ ⟨rfl⟩
          refine ⟨out.init, out.sk, _, i', 0, List.mem_append_right _ (by simp), hroot, hlin', ?_⟩
          rw [hskipped, hempty]
          exact KeyRing.empty fun m hm => hunused m hm.2 hm.1
        · exact h.built

theorem Accounted.decrypt (h : Accounted K w) {wire : Wire symbolic}
    (hnew : w.Unrepeated (.decrypt wire fresh)) :
    Accounted K (w.next K (.decrypt wire fresh)) := by
  simp only [Entry.next]
  cases hdec : sessionDecrypt K.ikDh K.spk w.session wire fresh with
  | error e => exact h
  | ok result =>
  cases result with
  | none => exact h
  | some result =>
  obtain ⟨s', p⟩ := result
  dsimp only
  rcases sessionDecrypt_some.mp hdec with ⟨s, hs, hdec⟩ | ⟨initMsg, hinit, hstored, hresp⟩
  · have hreads : reads w.session wire fresh = true := by
      rw [hs, reads, hdec]
      rfl
    rw [if_pos hreads]
    obtain ⟨init, sk, ds, i, r, hmem, hroot, ht⟩ := h.session s hs
    obtain ⟨mk, ds', i', r', hseal, htree, -, ht'⟩ := tracked_ratchetDecrypt ht hdec
    constructor
    · intro v hv
      rcases List.mem_append.mp hv with hv | hv
      · exact h.opened v hv
      · rw [List.mem_singleton.mp hv]
        exact ⟨mk, init, sk, hseal, hmem, hroot, htree⟩
    · rintro _ ⟨rfl⟩
      refine ⟨init, sk, ds', i', r', hmem, hroot, ht'.lineage, ht'.ring.weaken ?_⟩
      rintro m ⟨⟨v, hv, hm⟩, htm⟩
      rcases List.mem_append.mp hv with hv | hv
      · exact .inl ⟨⟨v, hv, hm⟩, htm⟩
      · rw [List.mem_singleton.mp hv] at hm
        exact .inr (hm.inj hseal)
    · intro v hv
      exact ⟨List.mem_append_left _ (h.built v hv).1, (h.built v hv).2⟩
  · have hreads : ¬ reads w.session wire fresh = true := by
      cases hs : w.session with
      | none => simp [reads]
      | some s =>
        obtain ⟨e, he⟩ := hstored s hs
        rw [reads, he]
        exact Bool.false_ne_true
    rw [if_neg hreads]
    obtain ⟨init, sk, mk, ds, i, r, hparsed, hroot, hseal, htree, hunused, ht⟩ :=
      h.respond hinit hnew hresp
    rw [hparsed]
    constructor
    · intro v hv
      rcases List.mem_append.mp hv with hv | hv
      · obtain ⟨mk', init', sk', hseal', hmem, hroot', htree'⟩ := h.opened v hv
        exact ⟨mk', init', sk', hseal', List.mem_append_left _ hmem, hroot', htree'⟩
      · rw [List.mem_singleton.mp hv]
        exact ⟨mk, init, sk, hseal, List.mem_append_right _ (by simp), hroot, htree⟩
    · rintro _ ⟨rfl⟩
      refine ⟨init, sk, ds, i, r, List.mem_append_right _ (by simp), hroot, ht.lineage,
        ht.ring.weaken ?_⟩
      rintro m ⟨⟨v, hv, hm⟩, htm⟩
      rcases List.mem_append.mp hv with hv | hv
      · exact absurd ⟨v, hv, hm⟩ (hunused m htm)
      · rw [List.mem_singleton.mp hv] at hm
        exact hm.inj hseal
    · intro v hv
      rcases List.mem_append.mp hv with hv | hv
      · exact ⟨List.mem_append_left _ (h.built v hv).1, (h.built v hv).2⟩
      · rw [List.mem_singleton.mp hv]
        exact ⟨List.mem_append_right _ (List.mem_singleton_self _), initMsg, fresh, s', p, hinit,
          hresp⟩

theorem accounted_of_reachable
    (hw : ((entry K).restrict Entry.Unrepeated).Reachable w) : Accounted K w := by
  refine Machine.Reachable.invariant (M := (entry K).restrict Entry.Unrepeated)
    (I := Accounted K) ?_ ?_ hw
  · constructor <;> simp [Machine.restrict, entry]
  · rintro w (_ | _ | _) - h ⟨hfresh, hnew⟩
    · exact h.encrypt hfresh
    · exact h.decrypt hnew
    · exact ⟨h.opened, fun _ hs => absurd hs (by simp [Machine.restrict, entry, Entry.next]),
        h.built⟩

/-! ## Replays -/

/-- The calls of the store on one entry do to it what the machine does, and nothing to the rest. -/
theorem Entry.decryptAt_eq {store : RatchetStore symbolic} {ck : String}
    (hs : store ck = w.session) (wire : Wire symbolic) :
    (decryptAt store ck fun session => sessionDecrypt K.ikDh K.spk session wire fresh).1 =
      Function.update store ck (w.next K (.decrypt wire fresh)).session := by
  simp only [decryptAt, Entry.next, hs]
  cases hdec : sessionDecrypt K.ikDh K.spk w.session wire fresh with
  | error e => exact (Function.update_eq_self_iff.mpr hs.symm).symm
  | ok result =>
    cases result with
    | none => exact (Function.update_eq_self_iff.mpr hs.symm).symm
    | some result =>
      obtain ⟨s, p⟩ := result
      cases reads w.session wire fresh <;> simp

theorem Entry.encryptAt_eq {store : RatchetStore symbolic} {ck : String}
    (hs : store ck = w.session) (peerBundle : Except Thrown (X3dhBundle symbolic))
    (plaintext : Bytes) (ek : KeyName) :
    (encryptAt store ck fun session => sessionEncrypt K.own peerBundle session plaintext ek fresh).1 =
      Function.update store ck (w.next K (.encrypt peerBundle plaintext ek fresh)).session := by
  simp only [encryptAt, Entry.next, hs]
  cases henc : sessionEncrypt K.own peerBundle w.session plaintext ek fresh with
  | error e => exact (Function.update_eq_self_iff.mpr hs.symm).symm
  | ok result => rfl

/-- No plaintext comes out and the store stays as it is. -/
def Rejected (store : RatchetStore symbolic)
    (result : RatchetStore symbolic × Except Thrown (Option Bytes)) : Prop :=
  result.1 = store ∧ ∀ plaintext, result.2 ≠ .ok (some plaintext)

theorem Accounted.rejected (h : Accounted K w) (hv : v ∈ w.opened)
    (hnew : w.Unrepeated (.decrypt v fresh)) {store : RatchetStore symbolic} {ck : String}
    (hs : store ck = w.session) :
    Rejected store (decryptAt store ck fun session =>
      sessionDecrypt K.ikDh K.spk session v fresh) := by
  have hnone : ∀ result, sessionDecrypt K.ikDh K.spk w.session v fresh ≠ .ok (some result) := by
    rintro ⟨s', p⟩ hdec
    rcases sessionDecrypt_some.mp hdec with ⟨s, hs, hdec⟩ | ⟨initMsg, hinit, -, hresp⟩
    · obtain ⟨e, he⟩ := h.not_reads fresh hv hs
      rw [he] at hdec
      cases hdec
    · obtain ⟨-, sk, mk, -, -, -, -, -, hseal, htree, hunused, -⟩ := h.respond hinit hnew hresp
      exact hunused mk htree ⟨v, hv, hseal⟩
  simp only [Rejected, decryptAt, hs]
  cases hdec : sessionDecrypt K.ikDh K.spk w.session v fresh with
  | error e => exact ⟨rfl, fun _ heq => by cases heq⟩
  | ok result =>
    cases result with
    | none => exact ⟨rfl, fun _ heq => by cases heq⟩
    | some result => exact absurd hdec (hnone result)

/-- A wire from which a session was built is decrypted every time. -/
theorem Accounted.rebuilt (h : Accounted K w) (hv : v ∈ w.built) (fresh : KeyName)
    {store : RatchetStore symbolic} {ck : String} (hs : store ck = w.session) :
    ∃ p, (decryptAt store ck fun session =>
      sessionDecrypt K.ikDh K.spk session v fresh).2 = .ok (some p) := by
  obtain ⟨hopened, initMsg, fresh', s, p, hinit, hresp⟩ := h.built v hv
  obtain ⟨s', hresp'⟩ := respond_again hresp fresh
  have hdec : sessionDecrypt K.ikDh K.spk w.session v fresh = .ok (some (s', p)) :=
    sessionDecrypt_some.mpr
      (.inr ⟨initMsg, hinit, fun s hs => h.not_reads _ hopened hs, hresp'⟩)
  exact ⟨p, by simp only [decryptAt, hs, hdec]⟩

/-- The entry of a user pair. -/
def IdentityKeys.entryKeys (identity : IdentityKeys symbolic)
    (distinct : identity.ikDhSecret.name ≠ identity.spkSecret.name) : EntryKeys :=
  ⟨identity.ikDhSecret, identity.ikDhSecret, identity.spkSecret, distinct⟩

/-- The entry of a device pair. -/
def DeviceKeyPair.entryKeys (deviceKeys : DeviceKeyPair symbolic)
    (identity : IdentityKeys symbolic)
    (distinct : identity.ikDhSecret.name ≠ deviceKeys.spkSecret.name) : EntryKeys :=
  ⟨identity.ikDhSecret, deviceKeys.ikDhSecret, deviceKeys.spkSecret, distinct⟩

/-- What comes of a wire that was decrypted before. -/
def Replayed (w : Entry) (v : Wire symbolic) (fresh : KeyName) (store : RatchetStore symbolic)
    (result : RatchetStore symbolic × Except Thrown (Option Bytes)) : Prop :=
  (w.Unrepeated (.decrypt v fresh) → Rejected store result) ∧
    (v ∈ w.built → ∃ p, result.2 = .ok (some p))

/-- **Replays**: in every run in which no init message is presented again after a session was built
from it, a wire that was decrypted is rejected from then on and the store keeps its session; a wire
from which a session was built is decrypted again. -/
theorem replay_rejected (identity : IdentityKeys symbolic) (deviceKeys : DeviceKeyPair symbolic)
    (hid : identity.ikDhSecret.name ≠ identity.spkSecret.name)
    (hdev : identity.ikDhSecret.name ≠ deviceKeys.spkSecret.name) (store : RatchetStore symbolic)
    (fresh : KeyName) :
    (∀ w, ((entry (identity.entryKeys hid)).restrict Entry.Unrepeated).Reachable w →
      ∀ v ∈ w.opened, ∀ myId senderId, store (pairKey myId senderId) = w.session →
        Replayed w v fresh store (drDecrypt identity store myId senderId v fresh)) ∧
    ∀ w, ((entry (deviceKeys.entryKeys identity hdev)).restrict Entry.Unrepeated).Reachable w →
      ∀ v ∈ w.opened, ∀ senderDeviceId recipientDeviceId,
        store (devicePairKey senderDeviceId recipientDeviceId) = w.session →
        Replayed w v fresh store
          (drDeviceDecrypt deviceKeys store senderDeviceId recipientDeviceId v fresh) := by
  apply And.intro
  · intro w hw v hv myId senderId hs
    have h := accounted_of_reachable hw
    exact ⟨fun hnew => h.rejected hv hnew hs, fun hbuilt => h.rebuilt hbuilt fresh hs⟩
  · intro w hw v hv senderDeviceId recipientDeviceId hs
    have h := accounted_of_reachable hw
    exact ⟨fun hnew => h.rejected hv hnew hs, fun hbuilt => h.rebuilt hbuilt fresh hs⟩

/-- The wire of Alice that is on its way after the first `n` calls of a short conversation. -/
def sampleWire (n : Nat) : Wire symbolic :=
  let w := (net sampleAccounts).exec (net sampleAccounts).init <| List.take n
    [.encrypt .alice (sampleSend 30), .decrypt .bob (keyPair 31), .encrypt .bob (sampleSend 32),
      .decrypt .alice (keyPair 33), .encrypt .alice (sampleSend 34)]
  ((w.flight .alice).map Prod.snd).headD ⟨none, none⟩

def sampleKeys : EntryKeys := (sampleIdentity 20).entryKeys (by decide)

/-- Bob's entry for Alice once he has read her first wire and answered it. -/
def sampleEntry : Entry :=
  (entry sampleKeys).exec (entry sampleKeys).init
    [.decrypt (sampleWire 1) (keyPair 31),
      .encrypt (.ok (buildBundle (sampleIdentity 10))) [32] (keyPair 132) (keyPair 32)]

theorem sampleEntry_reachable : ((entry sampleKeys).restrict Entry.Unrepeated).Reachable sampleEntry :=
  Machine.Reachable.init.exec (by decide +kernel)

theorem replay_rejected_sample :
    Replayed sampleEntry (sampleWire 1) (keyPair 60) (fun _ => sampleEntry.session)
      (drDecrypt (sampleIdentity 20) (fun _ => sampleEntry.session) 2 1 (sampleWire 1)
        (keyPair 60)) :=
  (replay_rejected (sampleIdentity 20) ⟨keyPair 22, keyPair 23⟩ (by decide) (by decide) _ _).1
    sampleEntry sampleEntry_reachable _ (by decide +kernel) 2 1 rfl

/-- Alice's first wire is decrypted a second time, and Bob's client drops the session in which her
later wire could be read. -/
theorem replay_accepted :
    let store : RatchetStore symbolic := fun _ => sampleEntry.session
    let read := fun store wire => drDecrypt (sampleIdentity 20) store 2 1 wire (keyPair 60)
    (entry sampleKeys).Reachable sampleEntry ∧ sampleWire 1 ∈ sampleEntry.opened ∧
      (read store (sampleWire 1)).2 = .ok (some [30]) ∧
      (read store (sampleWire 5)).2 = .ok (some [34]) ∧
      (read (read store (sampleWire 1)).1 (sampleWire 5)).2 ≠ .ok (some [34]) :=
  ⟨sampleEntry_reachable.of_restrict, by decide +kernel⟩

end Vesper.Client
