import Mathlib.Data.List.Forall2
import Vesper.Client.Convergence
import Vesper.Client.OutgoingContent
import Vesper.Lib.Simulations

/-!
# Texts between two clients

Two clients that write to each other, down to the bytes that they store and the strings that they send:
`encrypt` and `decrypt` of `useE2E.ts` on their object stores. They simulate the clients of `net`, whose
sessions converge; so what is shown is the text that was sent.
-/

namespace Vesper.Client.Texts
open Unicode (Utf16 ofString decode encode WellFormed bom)
open Base64 (toSextets)
open DoubleRatchet X3dh StoredSessions OutgoingContent Program
variable {P : Primitives} (F : ByteForms P)

/-! ## Bundles -/

/-- `ik_sign_pub(32) || ik_dh_pub(32) || spk_pub(32) || spk_sig(64) || 0` -/
def bundleBytes (k : IdentityKeys P) : Bytes :=
  let bundle := buildBundle k
  bundle.ikSign.bytes.toList ++ (bundle.ikDh.bytes.toList ++ (bundle.spk.bytes.toList ++
    ((F.signature bundle.spkSig).toList ++ [0])))

theorem parseBundle_bundleBytes (k : IdentityKeys P) : parseBundle F (bundleBytes F k) = .ok (buildBundle k) := by
  have hlength : (bundleBytes F k).length = 161 := by simp [bundleBytes]
  have hflag : (bundleBytes F k)[160] = 0 := by simp [bundleBytes]
  have hsign : slice 32 (bundleBytes F k) 0 (by omega) = (buildBundle k).ikSign.bytes :=
    slice_append (a := []) rfl rfl _
  have hdh : slice 32 (bundleBytes F k) 32 (by omega) = (buildBundle k).ikDh.bytes :=
    slice_append rfl (by simp) _
  have hspk : slice 32 (bundleBytes F k) 64 (by omega) = (buildBundle k).spk.bytes := by
    apply slice_append (a := (buildBundle k).ikSign.bytes.toList ++ (buildBundle k).ikDh.bytes.toList)
    · rw [List.append_assoc]
      rfl
    · simp
  have hsig : slice 64 (bundleBytes F k) 96 (by omega) = F.signature (buildBundle k).spkSig := by
    apply slice_append (a := (buildBundle k).ikSign.bytes.toList ++ ((buildBundle k).ikDh.bytes.toList ++
      (buildBundle k).spk.bytes.toList))
    · rw [List.append_assoc, List.append_assoc]
      rfl
    · simp
  rw [parseBundle, dif_neg (by omega)]
  dsimp only
  rw [if_neg (not_not_intro hflag), hsign, hdh, hspk, hsig, F.signature.symm_apply_apply]
  rfl

/-! ## Sessions and wires as bytes -/

/-- The bytes of a message with its header. -/
def drBytes (message : MessageHeader × P.Cipher) : Bytes := Worker.headerBytes message.1 ++ F.cipher message.2

/-- The bytes of a wire. -/
def toBytes (wire : Wire P) : Bytes := wireBytes wire.init (wire.dr.elim [] (drBytes F))

theorem parseDr_drBytes (message : MessageHeader × P.Cipher) : Worker.parseDr F (drBytes F message) = .ok message := by
  obtain ⟨⟨⟨dh⟩, pn, n⟩, c⟩ := message
  let data := drBytes F (⟨⟨dh⟩, pn, n⟩, c)
  have hlength : 40 ≤ data.length := by
    simp [data, drBytes, Worker.headerBytes]
    omega
  have hdata : data = dh.toList ++ (be32 pn ++ (be32 n ++ F.cipher c)) := by
    simp only [data, drBytes, Worker.headerBytes, List.append_assoc]
  have hdh : slice 32 data 0 (by omega) = dh := slice_append (a := []) hdata rfl _
  have hpn : data.drop 32 = be32 pn ++ (be32 n ++ F.cipher c) := by
    rw [hdata, List.drop_left' Vector.length_toList]
  have hn : data.drop 36 = be32 n ++ F.cipher c := by
    rw [show data.drop 36 = (data.drop 32).drop 4 from by rw [List.drop_drop], hpn, List.drop_left' (be32_length _)]
  have hc : data.drop 40 = F.cipher c := by
    rw [show data.drop 40 = (data.drop 36).drop 4 from by rw [List.drop_drop], hn, List.drop_left' (be32_length _)]
  change Worker.parseDr F data = _
  rw [Worker.parseDr, dif_neg (by omega), hdh, hpn, hn, hc, List.take_left' (be32_length _),
    List.take_left' (be32_length _), SenderKey.u32Be_be32, SenderKey.u32Be_be32, F.cipher.symm_apply_apply]

theorem ratchetEncrypt_toBytes {s : RatchetState P} (hs : Storable s) (plaintext : Bytes) :
    Worker.ratchetEncrypt F (s.toBytes F) plaintext [] = (ratchetEncrypt s plaintext).map fun out =>
      (drBytes F out.2, out.1.toBytes F) := by
  rw [Worker.ratchetEncrypt, hs.fromBytes_toBytes, Client.ratchetEncrypt]
  dsimp only [bind, Except.bind, liftWasm, Except.mapError]
  rcases DoubleRatchet.encrypt s plaintext [] with ⟨s', _ | ⟨hdr, c⟩⟩ <;> rfl

theorem ratchetDecrypt_toBytes {s : RatchetState P} (hs : Storable s) (message : MessageHeader × P.Cipher)
    (fresh : P.Secret) :
    Worker.ratchetDecrypt F (s.toBytes F) (drBytes F message) [] fresh =
      (ratchetDecrypt s (some message) fresh).map fun out => (out.2, out.1.toBytes F) := by
  rw [Worker.ratchetDecrypt, hs.fromBytes_toBytes, parseDr_drBytes, Client.ratchetDecrypt]
  dsimp only [bind, Except.bind, liftWasm, Except.mapError]
  rcases DoubleRatchet.decrypt s message.1 message.2 [] fresh with ⟨s', _ | plaintext⟩ <;> rfl

/-! ## Encryptions -/

variable {ik spk ek fresh fresh' : P.Secret} {peer : IdentityKeys P} {store : ByteStore} {key : String}
  {session : Option (RatchetState P)} {wire : Wire P}

theorem storable_of_empty {s : RatchetState P} (h : s.mkskipped = ∅) : Storable s :=
  ⟨by simp [h], fun q hq => absurd (h ▸ hq) Std.ExtTreeMap.not_mem_empty⟩

/-- A session is started without skipped keys. -/
theorem storable_of_initiate {bundle : X3dhBundle P} {s : RatchetState P} {initMsg : Bytes}
    (h : initiate ik bundle ek fresh = .ok (s, initMsg)) : Storable s ∧ initMsg.length = 65 := by
  obtain ⟨out, -, hsender, rfl⟩ := initiate_ok_iff.mp h
  rw [initSender, bind_eq_ok] at hsender
  obtain ⟨⟨rk, cks⟩, -, hsender⟩ := hsender
  obtain rfl := Except.ok.inj hsender
  exact ⟨storable_of_empty rfl, by simp [initBytes]⟩

/-- The content of a message with a wire. -/
def contentOf (wire : Wire P) : Utf16 := V2_DM ++ (toSextets (toBytes F wire)).map urlChar

/-- A wire that a client makes. -/
structure Sendable (wire : Wire P) : Prop where
  init : ∀ initMsg ∈ wire.init, initMsg.length = 65
  dr : wire.dr ≠ none

theorem sendable_of_sessionEncrypt {plaintext : Bytes} {s : RatchetState P}
    (h : sessionEncrypt ik (.ok (buildBundle peer)) session plaintext ek fresh = .ok (s, wire)) :
    Sendable wire := by
  cases session with
  | some _ =>
    obtain ⟨message, -, rfl⟩ := sessionEncrypt_some.mp h
    exact ⟨fun _ hinit => (by cases hinit), Option.some_ne_none message⟩
  | none =>
    obtain ⟨s₀, initMsg, message, hinitiate, -, rfl⟩ := sessionEncrypt_none.mp h
    refine ⟨fun _ hinit => ?_, Option.some_ne_none message⟩
    obtain rfl := Option.some.inj hinit
    exact (storable_of_initiate hinitiate).2

theorem sessionEncrypt_stored {s : RatchetState P} {plaintext : Bytes} :
    sessionEncrypt ik (.ok (buildBundle peer)) (some s) plaintext ek fresh =
      (ratchetEncrypt s plaintext).map fun out => (out.1, ⟨none, some out.2⟩) := by
  simp only [sessionEncrypt, pure_bind]
  cases ratchetEncrypt s plaintext <;> rfl

theorem sessionEncrypt_opened {s : RatchetState P} {initMsg plaintext : Bytes}
    (h : initiate ik (buildBundle peer) ek fresh = .ok (s, initMsg)) :
    sessionEncrypt ik (.ok (buildBundle peer)) none plaintext ek fresh =
      (ratchetEncrypt s plaintext).map fun out => (out.1, ⟨some initMsg, some out.2⟩) := by
  simp only [sessionEncrypt, bind, Except.bind, h, pure, Except.pure]
  cases ratchetEncrypt s plaintext <;> rfl

theorem sessionEncrypt_error {e : Thrown} {plaintext : Bytes}
    (h : initiate ik (buildBundle peer) ek fresh = .error e) :
    sessionEncrypt ik (.ok (buildBundle peer)) none plaintext ek fresh = .error e := by
  simp only [sessionEncrypt, bind, Except.bind, h]

variable (ik ek fresh peer session) in
/-- Opening a session on the bytes is opening it. -/
theorem openSession_toBytes : openSession F (F.secret ik).toList (.ok (bundleBytes F peer)) ek fresh
    (session.map (·.toBytes F)) =
      match session with
      | some s => .ok (s.toBytes F, none)
      | none => (initiate ik (buildBundle peer) ek fresh).map fun opened => (opened.1.toBytes F, some opened.2) := by
  cases session with
  | some s => rfl
  | none => exact openSession_bundle F (parseBundle_bundleBytes F peer)

/-- What follows once there is a session. -/
theorem encryptWith_toBytes {s : RatchetState P} (hs : Storable s) {maxArgs : Nat} {plaintext : Bytes}
    {initMsg : Option Bytes}
    (hfits : ∀ ciphertext newSessionBytes,
      Worker.ratchetEncrypt F (s.toBytes F) plaintext [] = .ok (ciphertext, newSessionBytes) →
      (wireBytes initMsg ciphertext).length ≤ maxArgs) :
    (do
      let (ciphertext, newSessionBytes) ← await (Worker.ratchetEncrypt F (s.toBytes F) plaintext [])
      save soundIdb key newSessionBytes
      let text ← await (b64Enc maxArgs (wireBytes initMsg ciphertext))
      return V2_DM ++ text : StoreProgram Utf16).exec store =
      match ratchetEncrypt s plaintext with
      | .ok (s', message) =>
        (.ok (contentOf F ⟨initMsg, some message⟩), Function.update store key (some (s'.toBytes F)))
      | .error e => (.error e, store) := by
  simp only [ratchetEncrypt_toBytes F hs] at hfits ⊢
  cases hencrypt : ratchetEncrypt s plaintext with
  | error e => rfl
  | ok out =>
    have hlength := hfits _ _ (congrArg (Except.map fun out => (drBytes F out.2, out.1.toBytes F)) hencrypt)
    have hencode : b64Enc maxArgs (wireBytes initMsg (drBytes F out.2)) =
        .ok ((toSextets (wireBytes initMsg (drBytes F out.2))).map urlChar) :=
      b64Enc_eq_ok_iff.mpr ⟨hlength, rfl⟩
    simp only [Except.map, exec_bind, exec_await, save, exec_modify, soundIdb, hencode, exec_pure]
    rfl

theorem load_exec : (load soundIdb key).exec store = (.ok (store key), store) := rfl

variable (ik ek fresh peer) in
/-- The critical section on the bytes is `sessionEncrypt` on the session. -/
theorem encryptUnderLock_toBytes (htag : AppendsTag P) {maxArgs : Nat} {plaintext : Bytes}
    (hstored : store key = session.map (·.toBytes F)) (hs : ∀ s ∈ session, Storable s)
    (hfits : wireLength (store key) plaintext ≤ maxArgs) :
    (encryptUnderLock F maxArgs soundIdb V2_DM key (F.secret ik).toList (.ok (bundleBytes F peer)) plaintext ek
      fresh).exec store =
      match sessionEncrypt ik (.ok (buildBundle peer)) session plaintext ek fresh with
      | .ok (s, wire) => (.ok (contentOf F wire), Function.update store key (some (s.toBytes F)))
      | .error e => (.error e, store) := by
  have hopen := openSession_toBytes F ik ek fresh peer session
  rw [← hstored] at hopen
  rw [encryptUnderLock, exec_bind_ok load_exec]
  cases session with
  | some s =>
    have hlength : ∀ ciphertext newSessionBytes,
        Worker.ratchetEncrypt F (s.toBytes F) plaintext [] = .ok (ciphertext, newSessionBytes) →
        (wireBytes none ciphertext).length ≤ maxArgs := fun _ _ hencrypt =>
      length_wireBytes F htag hopen hencrypt ▸ hfits
    rw [exec_await_bind_ok hopen, encryptWith_toBytes F (hs s rfl) hlength, sessionEncrypt_stored]
    cases ratchetEncrypt s plaintext <;> rfl
  | none =>
    dsimp only at hopen
    cases hinitiate : initiate ik (buildBundle peer) ek fresh with
    | error e =>
      rw [hinitiate] at hopen
      rw [exec_await_bind_error hopen, sessionEncrypt_error hinitiate]
    | ok opened =>
      rw [hinitiate] at hopen
      have hlength : ∀ ciphertext newSessionBytes,
          Worker.ratchetEncrypt F (opened.1.toBytes F) plaintext [] = .ok (ciphertext, newSessionBytes) →
          (wireBytes (some opened.2) ciphertext).length ≤ maxArgs := fun _ _ hencrypt =>
        length_wireBytes F htag hopen hencrypt ▸ hfits
      rw [exec_await_bind_ok hopen, encryptWith_toBytes F (storable_of_initiate hinitiate).1 hlength,
        sessionEncrypt_opened hinitiate]
      cases ratchetEncrypt opened.1 plaintext <;> rfl

/-! ## Decryptions -/

/-- What is stored and returned. -/
def decrypted (store : ByteStore) (key : String) :
    Except Thrown (RatchetState P × Bytes) → Except Thrown (Option Bytes) × ByteStore
  | .ok (s, plaintext) => (.ok (some plaintext), Function.update store key (some (s.toBytes F)))
  | .error e => (.error e, store)

variable (fresh store key) in
theorem decryptWith_toBytes {s : RatchetState P} (hs : Storable s) (message : MessageHeader × P.Cipher) :
    (decryptWith F soundIdb key (s.toBytes F) (drBytes F message) fresh).exec store =
      decrypted F store key (ratchetDecrypt s (some message) fresh) := by
  have hworker := ratchetDecrypt_toBytes F hs message fresh
  rw [decryptWith]
  cases hdecrypt : ratchetDecrypt s (some message) fresh with
  | error e =>
    rw [hdecrypt] at hworker
    rw [exec_await_bind_error hworker, decrypted]
  | ok out =>
    rw [hdecrypt] at hworker
    rw [exec_await_bind_ok hworker, decrypted]
    rfl

variable (ik spk) in
theorem x3dhReceiveBytes_init (initMsg : Bytes) :
    x3dhReceiveBytes F (F.secret ik).toList (F.secret spk).toList [] initMsg =
      (receiveInit ik spk initMsg).map fun sk => (F.block sk).toList := by
  rw [x3dhReceiveBytes, receiveInit, exact32_toList, exact32_toList]
  cases parseInit initMsg with
  | error e => rfl
  | ok init =>
    have hopk : readOpk [] = .ok none := rfl
    dsimp only [bind, Except.bind, pure, Except.pure]
    rw [hopk]
    dsimp only [Option.map]
    rw [F.secret.symm_apply_apply, F.secret.symm_apply_apply]
    cases liftWasm (x3dhReceive ik spk none init) <;> rfl

variable (ik spk fresh store key) in
theorem respond_toBytes (initMsg : Bytes) (message : MessageHeader × P.Cipher) :
    (StoredSessions.respond F soundIdb key (F.secret ik).toList (F.secret spk).toList initMsg (drBytes F message)
      fresh).exec store = decrypted F store key (Client.respond ik spk initMsg (some message) fresh) := by
  have hbytes := x3dhReceiveBytes_init F ik spk initMsg
  rw [StoredSessions.respond, Client.respond]
  cases hreceive : receiveInit ik spk initMsg with
  | error e =>
    rw [hreceive] at hbytes
    rw [exec_await_bind_error hbytes]
    rfl
  | ok sk =>
    rw [hreceive] at hbytes
    have hsession : Worker.ratchetInitReceiver F (F.block sk).toList (F.secret spk).toList =
        .ok ((initReceiver P sk spk).toBytes F) := by
      rw [Worker.ratchetInitReceiver, exact32_toList, exact32_toList]
      dsimp only [bind, Except.bind, pure, Except.pure]
      rw [F.block.symm_apply_apply, F.secret.symm_apply_apply]
    rw [exec_await_bind_ok hbytes, exec_await_bind_ok hsession, decryptWith_toBytes F _ _ _ (storable_of_empty rfl)]
    rfl

variable (ik spk fresh fresh') in
/-- The critical section on the bytes is `sessionDecrypt` on the session, unless there is both a session and an
init message. -/
theorem decryptUnderLock_toBytes (hstored : store key = session.map (·.toBytes F))
    (hs : ∀ s ∈ session, Storable s) (hwire : Sendable wire) (hfirst : session = none ∨ wire.init = none) :
    (decryptUnderLock F soundIdb key (F.secret ik).toList (F.secret spk).toList (toBytes F wire) fresh
      fresh').exec store =
      match sessionDecrypt ik spk session wire (if session.isSome then fresh else fresh') with
      | .ok (some out) => decrypted F store key (.ok out)
      | .ok none => (.ok none, store)
      | .error e => (.error e, store) := by
  obtain ⟨init, dr⟩ := wire
  obtain ⟨message, rfl⟩ := Option.ne_none_iff_exists'.mp hwire.dr
  rw [decryptUnderLock, exec_bind_ok load_exec, hstored]
  cases init with
  | none =>
    have hflag : hasInit (toBytes F ⟨none, some message⟩) = false := by
      rw [toBytes, wireBytes, hasInit, List.getElem?_cons_zero]
      decide
    rw [hflag, if_neg Bool.false_ne_true]
    cases session with
    | none => rfl
    | some s =>
      have hexec := decryptWith_toBytes F fresh store key (hs s rfl) message
      have hsession : sessionDecrypt ik spk (some s) ⟨none, some message⟩ fresh =
          (ratchetDecrypt s (some message) fresh).map some := rfl
      rw [Option.isSome_some, if_pos rfl, hsession]
      refine hexec.trans ?_
      cases ratchetDecrypt s (some message) fresh <;> rfl
  | some initMsg =>
    obtain rfl : session = none := hfirst.resolve_right (Option.some_ne_none initMsg)
    have hlength : initMsg.length = 65 := hwire.init initMsg rfl
    have hflag : hasInit (toBytes F ⟨some initMsg, some message⟩) = true := by
      rw [toBytes, wireBytes, hasInit, List.getElem?_cons_zero]
      decide
    have hinit : ((toBytes F ⟨some initMsg, some message⟩).drop 1).take 65 = initMsg :=
      List.take_left' hlength
    have hdr : (toBytes F ⟨some initMsg, some message⟩).drop 66 = drBytes F message :=
      List.drop_left' hlength
    rw [hflag, if_pos rfl, hinit, hdr]
    have hexec := respond_toBytes F ik spk fresh' store key initMsg message
    have hsession : sessionDecrypt ik spk none ⟨some initMsg, some message⟩ fresh' =
        (Client.respond ik spk initMsg (some message) fresh').map some := rfl
    rw [Option.isSome_none, if_neg Bool.false_ne_true, hsession]
    refine hexec.trans ?_
    cases Client.respond ik spk initMsg (some message) fresh' <;> rfl

/-! ## Two clients -/

/-- The object stores of both clients; the contents of each on their way, the oldest first, and what each
shows, both next to the texts sent; and the ratchet keys. -/
structure World where
  store : Side → ByteStore
  flight : Side → List (Utf16 × Utf16)
  shown : Side → List (Utf16 × Except Thrown Utf16)
  keys : List KeyAgreementPublicKey

/-- A text, and the keys that its encryption generates. -/
structure Draft (P : Primitives) where
  content : Utf16
  ek : P.Secret
  fresh : P.Secret

inductive Event (P : Primitives) where
  | encrypt (who : Side) (m : Draft P)
  | decrypt (who : Side) (fresh fresh' : P.Secret)

section
variable {κ : Type} (maxArgs : Nat) (legacy : Legacy κ) (C : Side → Account P) (w : World)

/-- A client that is initialized, and has no devices. -/
def surroundings (a : Account P) : Surroundings P := ⟨maxArgs, ⟨some a.identity, true, some a.id⟩, none, none⟩

/-- The entry of the other client in the store of a client. -/
def entry (who : Side) : String := pairKey (C who).id (C who.peer).id

/-- The server answers with the bundle that the other client has posted; a content is emitted. -/
def World.encrypt (who : Side) (m : Draft P) : World :=
  let opening : Opening P := ⟨soundIdb, b64Enc maxArgs (bundleBytes F (C who.peer).identity), m.ek, m.fresh⟩
  let (result, store) := (OutgoingContent.encrypt F (surroundings maxArgs (C who)) opening m.content
    (C who.peer).id).exec (w.store who)
  { w with
    store := Function.update w.store who store
    flight := Function.update w.flight who <| w.flight who ++
      match result with
      | .ok content => [(m.content, content)]
      | .error _ => []
    keys := P.publicKey m.fresh :: w.keys }

def World.decrypt (who : Side) (fresh fresh' : P.Secret) : World :=
  match w.flight who.peer with
  | [] => w
  | m :: rest =>
    let (result, store) := (OutgoingContent.decrypt F (surroundings maxArgs (C who)) soundIdb legacy m.2
      (C who.peer).id fresh fresh').exec (w.store who)
    { store := Function.update w.store who store
      flight := Function.update w.flight who.peer rest
      shown := Function.update w.shown who (w.shown who ++ [(m.1, result)])
      keys := P.publicKey fresh :: P.publicKey fresh' :: w.keys }

/-- Generated keys are new, and only a content on its way is read. -/
def World.Enabled : Event P → Prop
  | .encrypt _ m => P.publicKey m.fresh ∉ w.keys
  | .decrypt who fresh fresh' =>
    w.flight who.peer ≠ [] ∧ P.publicKey fresh ∉ w.keys ∧ P.publicKey fresh' ∉ w.keys

/-- The engine takes as many arguments as the wire has bytes. -/
def Fits : Event P → Prop
  | .encrypt who m => wireLength (w.store who (entry C who)) (encode m.content) ≤ maxArgs
  | .decrypt .. => True

/-- A client without a session sends only while the other has none either. -/
def Waits : Event P → Prop
  | .encrypt who _ => w.store who (entry C who) = none → w.store who.peer (entry C who.peer) = none
  | .decrypt .. => True

instance : ∀ e, Decidable (w.Enabled (P := P) e)
  | .encrypt _ m => inferInstanceAs (Decidable (P.publicKey m.fresh ∉ w.keys))
  | .decrypt .. => inferInstanceAs (Decidable (_ ∧ _ ∧ _))

instance : ∀ e, Decidable (Fits maxArgs C w e)
  | .encrypt .. => inferInstanceAs (Decidable (_ ≤ _))
  | .decrypt .. => .isTrue trivial

instance : ∀ e, Decidable (Waits C w e)
  | .encrypt .. => inferInstanceAs (Decidable (_ = none → _ = none))
  | .decrypt .. => .isTrue trivial

end

/-- Two clients over a server that relays in order. -/
def texts {κ : Type} (maxArgs : Nat) (legacy : Legacy κ) (C : Side → Account P) : Machine World (Event P) where
  init := ⟨fun _ _ => none, fun _ => [], fun _ => [], (net C).init.keys⟩
  enabled := World.Enabled
  next w
    | .encrypt who m => w.encrypt F maxArgs C who m
    | .decrypt who fresh fresh' => w.decrypt F maxArgs legacy C who fresh fresh'

instance {κ : Type} (maxArgs : Nat) (legacy : Legacy κ) (C : Side → Account P) (w : World) (e : Event P) :
    Decidable ((texts F maxArgs legacy C).enabled w e) :=
  inferInstanceAs (Decidable (w.Enabled e))

/-! ## The clients of `net` -/

section
variable {κ : Type} {maxArgs : Nat} {legacy : Legacy κ} {C : Side → Account P} {w : World} {v : Net P} {who : Side}

/-- The content of a text, and the wire of its bytes. -/
structure Spells (m : Utf16 × Utf16) (n : Bytes × Wire P) : Prop where
  text : n.1 = encode m.1
  content : m.2 = contentOf F n.2
  sendable : Sendable n.2

/-- What was decrypted is shown. -/
structure Shows (m : Utf16 × Except Thrown Utf16) (r : Bytes × Except Thrown (Option Bytes)) : Prop where
  text : r.1 = encode m.1
  shown : ∀ plaintext, r.2 = .ok (some plaintext) → m.2 = .ok (decode plaintext)

/-- The sessions are stored as bytes, and the wires are on their way as contents. -/
structure Mirrors (C : Side → Account P) (w : World) (v : Net P) : Prop where
  store : ∀ who, w.store who (entry C who) = (v.session C who).map (·.toBytes F)
  flight : ∀ who, List.Forall₂ (Spells F) (w.flight who) (v.flight who)
  shown : ∀ who, List.Forall₂ Shows (w.shown who) (v.results who)
  keys : v.keys ⊆ w.keys

theorem update_rel {α β : Type*} {ρ : α → β → Prop} {f : Side → α} {g : Side → β} {a : α} {b : β}
    (h : ∀ side, ρ (f side) (g side)) (hab : ρ a b) (side : Side) :
    ρ (Function.update f who a side) (Function.update g who b side) := by
  rcases Side.eq_or_eq_peer side who with rfl | rfl
  · rwa [Function.update_self, Function.update_self]
  · rw [Function.update_of_ne (Side.peer_ne who), Function.update_of_ne (Side.peer_ne who)]
    exact h _

/-- Both store a session. -/
theorem Mirrors.stored (h : Mirrors F C w v) (s : RatchetState P) (side : Side) :
    Function.update w.store who (Function.update (w.store who) (entry C who) (some (s.toBytes F))) side (entry C side) =
      ((v.put C who s).session C side).map (·.toBytes F) := by
  rcases Side.eq_or_eq_peer side who with rfl | rfl
  · rw [Function.update_self, Function.update_self, Net.session_put_self]
    rfl
  · rw [Function.update_of_ne (Side.peer_ne who), Net.session_put_peer]
    exact h.store _

/-- A stored session has no skipped keys. -/
theorem storable_of_converging (h : Converging C v) : ∀ s ∈ v.session C who, Storable s := by
  intro s hs
  rcases h.state with hidle | ⟨sk, x, cnt, top, ep, rp, hlink⟩
  · rw [(hidle who).1] at hs
    cases hs
  · obtain ⟨s', -, hempty, hholds⟩ := hlink.holds who
    cases hholds with
    | stored hstored _ =>
      obtain rfl := Option.some.inj (hstored.symm.trans hs)
      exact storable_of_empty hempty
    | first hnone =>
      rw [hnone] at hs
      cases hs

/-- The next wire has an init message only if there is no session. -/
theorem first_of_converging (h : Converging C v) {m : Bytes × Wire P} {ms : List (Bytes × Wire P)}
    (hm : v.flight who.peer = m :: ms) : v.session C who = none ∨ m.2.init = none := by
  rcases h.state with hidle | ⟨sk, x, cnt, top, ep, rp, hlink⟩
  · rw [(hidle who.peer).2.1] at hm
    cases hm
  · obtain ⟨s, -, -, hholds⟩ := hlink.holds who
    cases hholds with
    | stored _ hinit => exact .inr (hinit m (hm ▸ List.mem_cons_self))
    | first hnone => exact .inl hnone

/-- An encryption of `net` on the loaded session. -/
theorem encrypt_eq (v : Net P) (m : Send P) : v.encrypt C who m =
    match sessionEncrypt (C who).identity.ikDhSecret (.ok (buildBundle (C who.peer).identity)) (v.session C who)
      m.plaintext m.ek m.fresh with
    | .ok (s, wire) => { v.put C who s with
        flight := Function.update v.flight who (v.flight who ++ [(m.plaintext, wire)])
        keys := P.publicKey m.fresh :: v.keys }
    | .error _ => { v with keys := P.publicKey m.fresh :: v.keys } := by
  rcases h : sessionEncrypt (C who).identity.ikDhSecret (.ok (buildBundle (C who.peer).identity)) (v.session C who)
    m.plaintext m.ek m.fresh with e | ⟨s, wire⟩
  · rw [Net.session] at h
    simp only [Net.encrypt, Client.drEncrypt, encryptAt, h, Function.update_eq_self, List.append_nil]
  · rw [Net.session] at h
    simp only [Net.encrypt, Client.drEncrypt, encryptAt, h, Net.put]

/-- A decryption of `net` on the loaded session, if it returns a text. -/
theorem decrypt_eq {m : Bytes × Wire P} {ms : List (Bytes × Wire P)} {fresh : P.Secret} {s : RatchetState P}
    {plaintext : Bytes} (hm : v.flight who.peer = m :: ms)
    (h : sessionDecrypt (C who).identity.ikDhSecret (C who).identity.spkSecret (v.session C who) m.2 fresh =
      .ok (some (s, plaintext))) : v.decrypt C who fresh =
      { v.put C who s with
        flight := Function.update v.flight who.peer ms
        results := Function.update v.results who (v.results who ++ [(m.1, .ok (some plaintext))])
        keys := P.publicKey fresh :: v.keys } := by
  rw [Net.session] at h
  simp only [Net.decrypt, hm, Client.drDecrypt, decryptAt, h, Net.put]

/-! ## Steps -/

theorem bundle_eq (hmax : 161 ≤ maxArgs) (k : IdentityKeys P) :
    b64Enc maxArgs (bundleBytes F k) >>= b64Dec = .ok (bundleBytes F k) := by
  have hlength : (bundleBytes F k).length = 161 := by simp [bundleBytes]
  have hencode := b64Enc_eq_ok_iff.mpr ⟨hlength.trans_le hmax, rfl⟩
  rw [hencode]
  exact b64Dec_map_urlChar _

theorem World.encrypt_eq (htag : AppendsTag P) (hmax : 161 ≤ maxArgs) (h : Mirrors F C w v)
    (hs : ∀ s ∈ v.session C who, Storable s) {m : Draft P}
    (hfits : wireLength (w.store who (entry C who)) (encode m.content) ≤ maxArgs) :
    w.encrypt F maxArgs C who m =
      match sessionEncrypt (C who).identity.ikDhSecret (.ok (buildBundle (C who.peer).identity)) (v.session C who)
        (encode m.content) m.ek m.fresh with
      | .ok (s, wire) => { w with
          store := Function.update w.store who
            (Function.update (w.store who) (entry C who) (some (s.toBytes F)))
          flight := Function.update w.flight who (w.flight who ++ [(m.content, contentOf F wire)])
          keys := P.publicKey m.fresh :: w.keys }
      | .error _ => { w with keys := P.publicKey m.fresh :: w.keys } := by
  have hexec := encryptUnderLock_toBytes F (C who).identity.ikDhSecret m.ek m.fresh (C who.peer).identity htag (h.store who)
    hs hfits
  have hcall : OutgoingContent.encrypt F (surroundings maxArgs (C who))
      ⟨soundIdb, b64Enc maxArgs (bundleBytes F (C who.peer).identity), m.ek, m.fresh⟩ m.content (C who.peer).id =
      encryptUnderLock F maxArgs soundIdb V2_DM (entry C who) (F.secret (C who).identity.ikDhSecret).toList
        (.ok (bundleBytes F (C who.peer).identity)) (encode m.content) m.ek m.fresh := by
    rw [← bundle_eq F hmax]
    rfl
  rw [World.encrypt]
  dsimp only
  rw [hcall, hexec]
  cases sessionEncrypt (C who).identity.ikDhSecret (.ok (buildBundle (C who.peer).identity)) (v.session C who)
    (encode m.content) m.ek m.fresh with
  | error e => simp only [Function.update_eq_self, List.append_nil]
  | ok out => rfl

/-- An encryption on the bytes is one on the session. -/
theorem Mirrors.encrypt (htag : AppendsTag P) (hmax : 161 ≤ maxArgs) (h : Mirrors F C w v)
    (hs : ∀ s ∈ v.session C who, Storable s) {m : Draft P}
    (hfits : wireLength (w.store who (entry C who)) (encode m.content) ≤ maxArgs) :
    Mirrors F C (w.encrypt F maxArgs C who m) (v.encrypt C who ⟨encode m.content, m.ek, m.fresh⟩) := by
  have hkeys : P.publicKey m.fresh :: v.keys ⊆ P.publicKey m.fresh :: w.keys := List.cons_subset_cons _ h.keys
  rw [World.encrypt_eq F htag hmax h hs hfits, Texts.encrypt_eq]
  dsimp only
  cases hencrypt : sessionEncrypt (C who).identity.ikDhSecret (.ok (buildBundle (C who.peer).identity))
    (v.session C who) (encode m.content) m.ek m.fresh with
  | error e => exact ⟨h.store, h.flight, h.shown, hkeys⟩
  | ok out =>
    obtain ⟨s, wire⟩ := out
    have hspells : Spells F (m.content, contentOf F wire) (encode m.content, wire) :=
      ⟨rfl, rfl, sendable_of_sessionEncrypt hencrypt⟩
    refine ⟨h.stored F s, update_rel h.flight ?_, h.shown, hkeys⟩
    exact List.rel_append (h.flight who) (.cons hspells .nil)

/-- A decryption on the bytes is one on the session. -/
theorem World.decrypt_eq {m : Utf16 × Utf16} {ms : List (Utf16 × Utf16)} {wire : Wire P} {fresh fresh' : P.Secret}
    {s : RatchetState P} {plaintext : Bytes} (h : Mirrors F C w v) (hs : ∀ s ∈ v.session C who, Storable s)
    (hm : w.flight who.peer = m :: ms) (hcontent : m.2 = contentOf F wire) (hwire : Sendable wire)
    (hfirst : v.session C who = none ∨ wire.init = none)
    (hdecrypt : sessionDecrypt (C who).identity.ikDhSecret (C who).identity.spkSecret (v.session C who) wire
      (if (v.session C who).isSome then fresh else fresh') = .ok (some (s, plaintext))) :
    w.decrypt F maxArgs legacy C who fresh fresh' =
      { store := Function.update w.store who
          (Function.update (w.store who) (entry C who) (some (s.toBytes F)))
        flight := Function.update w.flight who.peer ms
        shown := Function.update w.shown who (w.shown who ++ [(m.1, .ok (decode plaintext))])
        keys := P.publicKey fresh :: P.publicKey fresh' :: w.keys } := by
  have hexec := decryptUnderLock_toBytes F (C who).identity.ikDhSecret (C who).identity.spkSecret fresh fresh' (h.store who)
    hs hwire hfirst
  rw [hdecrypt] at hexec
  have hbytes : b64Dec (m.2.drop V2_DM.length) = .ok (toBytes F wire) := by
    rw [hcontent, contentOf, List.drop_left]
    exact b64Dec_map_urlChar _
  have hcall : (StoredSessions.drDecrypt F soundIdb (C who).identity (C who).id (C who.peer).id m.2 fresh
      fresh').exec (w.store who) = decrypted F (w.store who) (entry C who) (.ok (s, plaintext)) := by
    rw [StoredSessions.drDecrypt, exec_await_bind_ok hbytes]
    exact hexec
  have hprefix : V2_DM <+: m.2 := by
    rw [hcontent]
    exact List.prefix_append V2_DM _
  have hshown : (OutgoingContent.decrypt F (surroundings maxArgs (C who)) soundIdb legacy m.2 (C who.peer).id fresh
      fresh').exec (w.store who) =
        (.ok (decode plaintext), Function.update (w.store who) (entry C who) (some (s.toBytes F))) := by
    rw [OutgoingContent.decrypt]
    dsimp only [surroundings]
    rw [if_pos hprefix, exec_tryCatch, exec_bind_ok hcall]
    rfl
  rw [World.decrypt, hm]
  dsimp only
  rw [hshown]

theorem sessionDecrypt_of_readWith {ik spk fresh : P.Secret} {stored : Option (RatchetState P)} {wire : Wire P}
    {s s' : RatchetState P} {header : MessageHeader} {c : P.Cipher} {plaintext : Bytes}
    (h : ReadWith ik spk stored wire.init s) (hdr : wire.dr = some (header, c))
    (hdec : DoubleRatchet.decrypt s header c [] fresh = (s', .ok plaintext)) :
    sessionDecrypt ik spk stored wire fresh = .ok (some (s', plaintext)) := by
  have hratchet := ratchetDecrypt_ok_iff.mpr ⟨header, c, hdr, hdec⟩
  generalize hinit : wire.init = init at h
  cases h with
  | stored => exact sessionDecrypt_some.mpr (.inl ⟨s, rfl, hratchet⟩)
  | first hsk =>
    have hrespond := respond_ok_iff.mpr ⟨_, header, c, hsk, hdr, hdec⟩
    exact sessionDecrypt_some.mpr (.inr ⟨_, hinit, fun _ hnone => (by cases hnone), hrespond⟩)

/-- The next wire is read as its plaintext. -/
theorem reads_of_converging (hcomm : DhCommutes P) (haead : AeadInverts P) (h : Converging C v)
    {m : Bytes × Wire P} {ms : List (Bytes × Wire P)} (hm : v.flight who.peer = m :: ms) (fresh : P.Secret) :
    ∃ s, sessionDecrypt (C who).identity.ikDhSecret (C who).identity.spkSecret (v.session C who) m.2 fresh =
      .ok (some (s, m.1)) := by
  rcases h.state with hidle | ⟨sk, x, cnt, top, ep, rp, hlink⟩
  · rw [(hidle who.peer).2.1] at hm
    cases hm
  · obtain ⟨s, hsync, hempty, hholds⟩ := hlink.holds who
    obtain ⟨header, c, s', -, -, -, -, hdr, hdec, -⟩ := hlink.opens fresh hcomm haead hm hsync hempty
    exact ⟨s', sessionDecrypt_of_readWith (hholds.readWith hm).1 hdr hdec⟩

/-- A decryption on the bytes is one on the session, with the fresh key of the session that is tried. -/
theorem Mirrors.decrypt (hcomm : DhCommutes P) (haead : AeadInverts P) (h : Mirrors F C w v)
    (hv : Converging C v) (hflight : w.flight who.peer ≠ []) {fresh fresh' : P.Secret} :
    v.flight who.peer ≠ [] ∧ Mirrors F C (w.decrypt F maxArgs legacy C who fresh fresh')
      (v.decrypt C who (if (v.session C who).isSome then fresh else fresh')) := by
  obtain ⟨m, ms, hm⟩ := List.exists_cons_of_ne_nil hflight
  have hrel := h.flight who.peer
  rw [hm] at hrel
  obtain ⟨n, ns, hspells, hrest, hn⟩ := List.forall₂_cons_left_iff.mp hrel
  obtain ⟨s, hdecrypt⟩ := reads_of_converging hcomm haead hv hn
    (if (v.session C who).isSome then fresh else fresh')
  rw [World.decrypt_eq F h (storable_of_converging hv) hm hspells.content hspells.sendable
    (first_of_converging hv hn) hdecrypt, Texts.decrypt_eq hn hdecrypt]
  have hshows : Shows (m.1, .ok (decode n.1)) (n.1, .ok (some n.1)) := by
    refine ⟨hspells.text, fun plaintext heq => ?_⟩
    obtain rfl := Option.some.inj (Except.ok.inj heq)
    rfl
  refine ⟨hn ▸ List.cons_ne_nil n ns, h.stored F s, update_rel h.flight hrest,
    update_rel h.shown (List.rel_append (h.shown who) (.cons hshows .nil)), fun k hk => ?_⟩
  rcases List.mem_cons.mp hk with rfl | hold
  · split
    · exact List.mem_cons_self
    · exact List.mem_cons_of_mem _ List.mem_cons_self
  · exact List.mem_cons_of_mem _ (List.mem_cons_of_mem _ (h.keys hold))

/-! ## Runs -/

/-- A client has a session in `net` if it stores one. -/
theorem Mirrors.session_eq_none (h : Mirrors F C w v) : v.session C who = none ↔ w.store who (entry C who) = none := by
  rw [h.store who, Option.map_eq_none_iff]

/-- A step on the bytes is a step of `net`, as far as that may be taken in its state. -/
theorem Mirrors.step (hcomm : DhCommutes P) (haead : AeadInverts P) (htag : AppendsTag P) (hmax : 161 ≤ maxArgs)
    (h : Mirrors F C w v) (hv : Converging C v) {e : Event P} (he : (texts F maxArgs legacy C).enabled w e)
    (hfits : Fits maxArgs C w e) : ∃ d, v.Enabled d ∧ (Waits C w e → Uncrossed C v d) ∧
      Mirrors F C ((texts F maxArgs legacy C).next w e) ((net C).next v d) := by
  cases e with
  | encrypt who m =>
    refine ⟨.encrypt who ⟨encode m.content, m.ek, m.fresh⟩, fun hmem => he (h.keys hmem), fun hwaits hnone => ?_,
      h.encrypt F htag hmax (storable_of_converging hv) hfits⟩
    exact (h.session_eq_none F).mpr (hwaits ((h.session_eq_none F).mp hnone))
  | decrypt who fresh fresh' =>
    obtain ⟨hflight, hfresh, hfresh'⟩ := he
    have hdecrypt : _ ∧ Mirrors F C (w.decrypt F maxArgs legacy C who fresh fresh') _ :=
      h.decrypt F hcomm haead hv hflight
    refine ⟨.decrypt who (if (v.session C who).isSome then fresh else fresh'), ⟨hdecrypt.1, fun hmem => ?_⟩,
      fun _ => trivial, hdecrypt.2⟩
    split at hmem
    · exact hfresh (h.keys hmem)
    · exact hfresh' (h.keys hmem)

theorem simulates_net (hcomm : DhCommutes P) (haead : AeadInverts P) (htag : AppendsTag P) (hmax : 161 ≤ maxArgs) :
    ((texts F maxArgs legacy C).restrict fun w e => Fits maxArgs C w e ∧ Waits C w e).Simulates
      ((net C).restrict (Uncrossed C)) (Mirrors F C) (Converging C) where
  keeps _ _ hv he := hv.next hcomm haead he.1 he.2
  step _ _ _ hv h he := by
    obtain ⟨d, hd, huncrossed, hmirrors⟩ := h.step F hcomm haead htag hmax hv he.1 he.2.1
    exact ⟨[d], ⟨⟨hd, huncrossed he.2.2⟩, trivial⟩, hmirrors⟩

/-- Once both have a session nothing has to wait. -/
theorem simulates_net_after (hcomm : DhCommutes P) (haead : AeadInverts P) (htag : AppendsTag P)
    (hmax : 161 ≤ maxArgs) : ((texts F maxArgs legacy C).restrict (Fits maxArgs C)).Simulates (net C) (Mirrors F C)
      fun v => Converging C v ∧ ∀ who, v.session C who ≠ none where
  keeps v d hv hd := by
    have huncrossed : Uncrossed C v d := by
      cases d with
      | encrypt who m => exact fun hnone => absurd hnone (hv.2 who)
      | decrypt => trivial
    exact ⟨hv.1.next hcomm haead hd huncrossed, fun who => Net.session_next (hv.2 who)⟩
  step _ _ _ hv h he := by
    obtain ⟨d, hd, -, hmirrors⟩ := h.step F hcomm haead htag hmax hv.1 he.1 he.2
    exact ⟨[d], ⟨hd, trivial⟩, hmirrors⟩

/-- The text is shown as it is read from its bytes, and if it is well formed, as it was sent. -/
def Arrives (m : Utf16 × Except Thrown Utf16) : Prop :=
  m.2 = .ok (decode (encode m.1)) ∧ (WellFormed m.1 → m.1.head? ≠ some bom → m.2 = .ok m.1)

def World.Arrived (w : World) : Prop := ∀ who, ∀ m ∈ w.shown who, Arrives m

/-- Both clients have been shown a text of the other. -/
def World.Both (w : World) : Prop := ∀ who, w.shown who ≠ []

theorem arrives_of_shows {ms : List (Utf16 × Except Thrown Utf16)} {rs : List (Bytes × Except Thrown (Option Bytes))}
    (h : List.Forall₂ Shows ms rs) (hall : AllReceived rs) : ∀ m ∈ ms, Arrives m := by
  induction h with
  | nil => exact fun m hm => absurd hm List.not_mem_nil
  | @cons m r ms rs hshows _ ih =>
    intro m' hm'
    rcases List.mem_cons.mp hm' with rfl | hm'
    · have hshown : m'.2 = .ok (decode (encode m'.1)) := by
        rw [hshows.shown r.1 (hall r List.mem_cons_self), hshows.text]
      exact ⟨hshown, fun hwell hbom => by rw [hshown, Unicode.decode_encode hwell hbom]⟩
    · exact ih (fun r hr => hall r (List.mem_cons_of_mem _ hr)) m' hm'

theorem Mirrors.arrived (h : Mirrors F C w v) (hv : v.Delivered) : w.Arrived :=
  fun who => arrives_of_shows (h.shown who) (hv who)

/-- **Texts arrive**: in every run in which no client starts a session while the other has one, and every wire
fits into a call of the engine, each text that is shown is the one that was sent, through UTF-8, the stored
bytes of the sessions and base64; and once both have been shown one, that holds for all that follows. -/
theorem texts_arrive (hcomm : DhCommutes P) (haead : AeadInverts P) (htag : AppendsTag P) (hmax : 161 ≤ maxArgs)
    (hw : ((texts F maxArgs legacy C).restrict fun w e => Fits maxArgs C w e ∧ Waits C w e).Reachable w) :
    w.Arrived ∧ (w.Both → ∀ es, ((texts F maxArgs legacy C).restrict (Fits maxArgs C)).Allowed w es →
      ((texts F maxArgs legacy C).exec w es).Arrived) := by
  have hinit : Mirrors F C (texts F maxArgs legacy C).init (net C).init :=
    ⟨fun _ => rfl, fun _ => .nil, fun _ => .nil, List.Subset.refl _⟩
  obtain ⟨v, hv, hconverging, hmirrors⟩ := (simulates_net F hcomm haead htag hmax).reachable
    (converging_of_reachable hcomm haead .init) hinit hw
  refine ⟨hmirrors.arrived F hconverging.delivered, fun hboth es hes => ?_⟩
  have hsessions : ∀ who, v.session C who ≠ none := by
    intro who
    apply hconverging.started
    intro hnone
    have hshown := hmirrors.shown who
    rw [hnone, List.forall₂_nil_right_iff] at hshown
    exact hboth who hshown
  obtain ⟨ds, -, hafter, hrun⟩ := (simulates_net_after F hcomm haead htag hmax).run ⟨hconverging, hsessions⟩
    hmirrors hes
  exact hrun.arrived F hafter.1.delivered

end

/-! ## A text each way -/

def plainAccounts : Side → Account plainPrimitives
  | .alice => ⟨1, ⟨.replicate 32 1, .replicate 32 2, .replicate 32 3⟩⟩
  | .bob => ⟨2, ⟨.replicate 32 4, .replicate 32 5, .replicate 32 6⟩⟩

/-- There are no older messages. -/
def noLegacy : Legacy Unit := ⟨.ok none, fun _ _ => .ok none, fun _ _ => .ok none⟩

def textEachWay : List (Event plainPrimitives) := [
  .encrypt .alice ⟨ofString "Привіт", .replicate 32 10, .replicate 32 11⟩,
  .decrypt .bob (.replicate 32 12) (.replicate 32 13),
  .encrypt .bob ⟨ofString "👋", .replicate 32 14, .replicate 32 15⟩,
  .decrypt .alice (.replicate 32 16) (.replicate 32 17)]

theorem texts_arrive_sample :
    ((texts plainForms 65536 noLegacy plainAccounts).exec (texts plainForms 65536 noLegacy plainAccounts).init
      textEachWay).Arrived :=
  (texts_arrive plainForms dhCommutes_plain aeadInverts_plain appendsTag_plain (by decide)
    (Machine.Reachable.init.exec (M := (texts plainForms 65536 noLegacy plainAccounts).restrict fun w e =>
      Fits 65536 plainAccounts w e ∧ Waits plainAccounts w e) (by decide +kernel))).1

end Vesper.Client.Texts
