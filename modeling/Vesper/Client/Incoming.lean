import Vesper.Client.GroupCalls

/-!
# Two handlers for one message

`useMessages.onMessage` and `useConversations.onMessage` both decrypt a message that comes in, with
one stored session or receiver between them. The first shows the plaintext and saves it in the cache,
the second only previews it; a ratchet key serves one of them.
-/

namespace Vesper.Client
open DoubleRatchet X3dh
variable {P : Primitives}

/-! ## Decrypting a message -/

/-- What comes with the browser, and the keys of the client. -/
structure Device (P : Primitives) where
  identity : IdentityKeys P
  deviceKeys : DeviceKeyPair P
  /-- `new TextDecoder().decode` -/
  decode : Bytes → String
  /-- `crypto.subtle.importKey` of a raw AES-GCM key. -/
  importKey : Bytes → Option P.Block
  b64Dec : String → Option Bytes

/-- The content of an encrypted message, with the envelope for this device under `v3`. -/
inductive Ciphertext (P : Primitives) where
  | v2 (wire : Wire P)
  | v2g (data : Option (Option (SenderKey.SenderKeyMessage P)))
  | v3 (iv : Bytes) (ct : P.Cipher) (envelope : Wire P)

/-- What is stored for the sender: a session, or the receiver of a group. -/
abbrev Ciphertext.Stored : Ciphertext P → Type
  | .v2 _ | .v3 _ _ _ => Option (RatchetState P)
  | .v2g _ => Option (SenderKey.ReceiverState P)

/-- Only the calls on sessions run under `withLock`. -/
def Ciphertext.locked : Ciphertext P → Bool
  | .v2 _ | .v3 _ _ _ => true
  | .v2g _ => false

/-- `drDecrypt` or `drDeviceDecrypt` on the stored session, and what is made of the plaintext. -/
def sessionCall (ikDh spk : P.Secret) (wire : Wire P) (fresh : P.Secret)
    (use : Bytes → Option Bytes) : CellCall (Option (RatchetState P)) (Except String Bytes) :=
  fun session =>
    match sessionDecrypt ikDh spk session wire fresh with
    | .ok (some (newSession, plaintext)) =>
      (some (some newSession), (use plaintext).elim (.error NOT_DECRYPTED) .ok)
    | .ok none | .error _ => (none, .error NOT_DECRYPTED)

/-- `decrypt`, `decryptFromGroup` or `decryptV3`: the plaintext, or the text that stands for it. -/
def Ciphertext.decrypt (d : Device P) (fresh : P.Secret) :
    (c : Ciphertext P) → CellCall c.Stored (Except String Bytes)
  | .v2 wire => sessionCall d.identity.ikDhSecret d.identity.spkSecret wire fresh some
  | .v2g data => decryptFromGroup data
  | .v3 iv ct envelope =>
    sessionCall d.deviceKeys.ikDhSecret d.deviceKeys.spkSecret envelope fresh fun messageKey =>
      (d.importKey messageKey).bind fun aesKey => (subtleDecrypt aesKey iv ct).toOption

/-! ## The handlers -/

inductive Handler where
  | messages
  | conversations
  deriving DecidableEq

instance (p : Handler → Prop) [DecidablePred p] : Decidable (∀ handler, p handler) :=
  decidable_of_iff (p .messages ∧ p .conversations)
    ⟨fun h handler => by cases handler <;> first | exact h.1 | exact h.2, fun h => ⟨h _, h _⟩⟩

/-- A message from another member of the conversation that is open. -/
structure IncomingMessage (P : Primitives) where
  id : Nat
  senderId : Nat
  fileUrl : Option String
  content : Ciphertext P

/-- A row of the message list; one without identifier is still unconfirmed. -/
structure ShownMessage where
  id : Option Nat
  senderId : Nat
  fileUrl : Option String
  content : String
  deriving DecidableEq

def MEDIA_KEY_PREFIX : String := "mk:"

/-- `text.startsWith(start)` -/
def startsWith (start text : String) : Bool := start.toList.isPrefixOf text.toList

/-- The media key in a decrypted content. -/
def mediaKey (d : Device P) (plain : String) : Option Bytes :=
  if startsWith MEDIA_KEY_PREFIX plain then
    (d.b64Dec (String.ofList (plain.toList.drop 3))).map (·.take 44)
  else none

/-- What `useMessages.onMessage` makes of a decryption: the content to show, the plaintext to cache
and the media key to save. -/
def IncomingMessage.open (d : Device P) (msg : IncomingMessage P) (result : Except String Bytes) :
    String × Option String × Option Bytes :=
  match msg.content with
  | .v3 _ _ _ =>
    match result with
    | .ok plaintext =>
      let plain := d.decode plaintext
      if msg.fileUrl.isSome ∧ startsWith MEDIA_KEY_PREFIX plain then
        ("", some plain, mediaKey d plain)
      else (plain, some plain, none)
    | .error placeholder => (if msg.fileUrl.isSome then "" else placeholder, none, none)
  | .v2 _ | .v2g _ =>
    let decrypted := match result with
      | .ok plaintext => d.decode plaintext
      | .error placeholder => placeholder
    if msg.fileUrl.isSome then ("", none, mediaKey d decrypted)
    else (decrypted, if startsWith "[🔒" decrypted then none else some decrypted, none)

/-- `setMessages`: an incoming message takes the place of the row that it confirms, or comes last. -/
def setMessages (list : List ShownMessage) (m : ShownMessage) : List ShownMessage :=
  if list.any fun m' => m'.id = m.id then list
  else
    match list.findIdx? fun m' => m'.id = none ∧ m'.senderId = m.senderId ∧ m'.fileUrl = m.fileUrl ∧
        (m.fileUrl.isSome ∨ m'.content = m.content) with
    | some i => list.set i m
    | none => list ++ [m]

/-- The page on which a message comes in. -/
structure Page (σ : Type) where
  memory : CellCall.Memory Handler σ (Except String Bytes)
  finished : Handler → Bool
  list : List ShownMessage
  /-- The calls of `savePlaintext` that are under way. -/
  saving : List (Nat × String)
  plaintexts : Nat → Option String
  mediaKeys : Nat → Option Bytes

inductive PageStep where
  /-- The next step of a handler's decryption. -/
  | run (handler : Handler)
  /-- A handler goes on with the result. -/
  | finish (handler : Handler)
  | save
  deriving DecidableEq

namespace Page
variable {σ : Type}

/-- A handler goes on; the preview in the sidebar is left out. -/
def finish (d : Device P) (msg : IncomingMessage P) (w : Page σ) (result : Except String Bytes) :
    Handler → Page σ
  | .messages =>
    let (content, plain, key) := msg.open d result
    { w with
      finished := Function.update w.finished .messages true
      list := setMessages w.list ⟨some msg.id, msg.senderId, msg.fileUrl, content⟩
      saving := w.saving ++ plain.toList.map fun plain => (msg.id, plain)
      mediaKeys := if key.isSome then Function.update w.mediaKeys msg.id key else w.mediaKeys }
  | .conversations => { w with finished := Function.update w.finished .conversations true }

def next (d : Device P) (msg : IncomingMessage P) (f : Handler → CellCall σ (Except String Bytes))
    (w : Page σ) : PageStep → Page σ
  | .run handler => { w with memory := CellCall.advance f w.memory handler }
  | .finish handler =>
    match w.memory.phase handler with
    | .done result => w.finish d msg result handler
    | _ => w
  | .save =>
    match w.saving with
    | [] => w
    | (id, plain) :: saving =>
      { w with saving, plaintexts := Function.update w.plaintexts id (some plain) }

/-- The handler is inside its call. -/
def Inside (w : Page σ) (handler : Handler) : Prop :=
  w.memory.phase handler ≠ .idle ∧ ∀ result, w.memory.phase handler ≠ .done result

/-- Under a lock no call starts while another is inside. -/
def Enabled (locked : Bool) (w : Page σ) : PageStep → Prop
  | .run handler => (∀ result, w.memory.phase handler ≠ .done result) ∧
    (locked → w.memory.phase handler = .idle → ∀ other, ¬w.Inside other)
  | .finish handler => (∃ result, w.memory.phase handler = .done result) ∧ ¬w.finished handler
  | .save => w.saving ≠ []

instance (w : Page σ) (handler : Handler) : Decidable (w.Inside handler) :=
  inferInstanceAs (Decidable (_ ∧ _))

instance (locked : Bool) (w : Page σ) : (step : PageStep) → Decidable (w.Enabled locked step)
  | .run _ => inferInstanceAs (Decidable (_ ∧ (_ → _ → ∀ other, ¬w.Inside other)))
  | .finish _ => inferInstanceAs (Decidable (_ ∧ _))
  | .save => inferInstanceAs (Decidable (_ ≠ _))

/-- Both handlers are done, and what they save is saved. -/
def Quiescent (w : Page σ) : Prop := (∀ handler, w.finished handler) ∧ w.saving = []

instance (w : Page σ) : Decidable w.Quiescent :=
  inferInstanceAs (Decidable ((∀ _ : Handler, _) ∧ _ = _))

end Page

/-- What `useMessages.onMessage` calls: nothing when the media key of a file is there already. -/
def IncomingMessage.calls (d : Device P) (msg : IncomingMessage P) (mediaKeys : Nat → Option Bytes)
    (fresh : Handler → P.Secret) :
    Handler → CellCall msg.content.Stored (Except String Bytes)
  | .messages =>
    if msg.content matches .v3 .. then msg.content.decrypt d (fresh .messages)
    else if msg.fileUrl.isSome ∧ (mediaKeys msg.id).isSome then fun _ => (none, .error "")
    else msg.content.decrypt d (fresh .messages)
  | .conversations => msg.content.decrypt d (fresh .conversations)

/-- Every interleaving of the two handlers, from a page with `stored` in the key database. -/
def page (d : Device P) (msg : IncomingMessage P) (fresh : Handler → P.Secret)
    (stored : msg.content.Stored) (list : List ShownMessage) (plaintexts : Nat → Option String)
    (mediaKeys : Nat → Option Bytes) : Machine (Page msg.content.Stored) PageStep where
  init := ⟨⟨stored, fun _ => .idle⟩, fun _ => false, list, [], plaintexts, mediaKeys⟩
  enabled := Page.Enabled msg.content.locked
  next := Page.next d msg (msg.calls d mediaKeys fresh)

instance {d : Device P} {msg : IncomingMessage P} {fresh : Handler → P.Secret}
    {stored : msg.content.Stored} {list : List ShownMessage} {plaintexts : Nat → Option String}
    {mediaKeys : Nat → Option Bytes} (w : Page msg.content.Stored) (step : PageStep) :
    Decidable ((page d msg fresh stored list plaintexts mediaKeys).enabled w step) :=
  inferInstanceAs (Decidable (w.Enabled msg.content.locked step))

/-! ## What the message list shows -/

/-- The message list shows the plaintext, and the cache holds it. -/
def Page.Received {σ : Type} (d : Device P) (msg : IncomingMessage P) (plaintext : Bytes)
    (w : Page σ) : Prop :=
  (∃ m ∈ w.list, m.id = some msg.id ∧ m.content = d.decode plaintext) ∧
    w.plaintexts msg.id = some (d.decode plaintext)

instance {σ : Type} (d : Device P) (msg : IncomingMessage P) (plaintext : Bytes) (w : Page σ) :
    Decidable (w.Received d msg plaintext) :=
  inferInstanceAs (Decidable ((∃ m ∈ w.list, _ ∧ _) ∧ _ = _))

/-- The session cannot read the wire. -/
def Unread (session : Option (RatchetState P)) (wire : Wire P) : Prop :=
  ∀ s fresh, session = some s → ∃ e, ratchetDecrypt s wire.dr fresh = .error e

/-- The message brings its own session: neither the session stored when it came in nor the one
stored now can read it, which leaves its init message. -/
def Ciphertext.BringsSession : (c : Ciphertext P) → c.Stored → c.Stored → Prop
  | .v2 wire, stored, now | .v3 _ _ wire, stored, now =>
    wire.init.isSome ∧ Unread stored wire ∧ Unread now wire
  | .v2g _, _, _ => False

/-- `useMessages.onMessage` loads what was stored when the message came in. A message that brings its
own session is read in any case. -/
def InTime (msg : IncomingMessage P) (stored : msg.content.Stored) (w : Page msg.content.Stored) :
    PageStep → Prop
  | .run .messages => w.memory.phase .messages = .idle →
    w.memory.cell = stored ∨ msg.content.BringsSession stored w.memory.cell
  | _ => True

theorem sessionDecrypt_unread {ikDh spk fresh : P.Secret} {session session' : Option (RatchetState P)}
    {wire : Wire P} (hinit : wire.init.isSome) (h : Unread session wire) (h' : Unread session' wire) :
    sessionDecrypt ikDh spk session wire fresh = sessionDecrypt ikDh spk session' wire fresh := by
  obtain ⟨initMsg, hinit⟩ := Option.isSome_iff_exists.mp hinit
  have hrespond : ∀ session, Unread session wire → sessionDecrypt ikDh spk session wire fresh =
      (respond ikDh spk initMsg wire.dr fresh).map some := by
    intro session hunread
    cases session with
    | none => simp only [sessionDecrypt, hinit]
    | some s =>
      obtain ⟨e, he⟩ := hunread s fresh rfl
      simp only [sessionDecrypt, hinit, he]
  rw [hrespond session h, hrespond session' h']

theorem decrypt_bringsSession {d : Device P} {fresh : P.Secret} {c : Ciphertext P}
    {stored now : c.Stored} (h : c.BringsSession stored now) :
    c.decrypt d fresh now = c.decrypt d fresh stored := by
  cases c with
  | v2g data => exact h.elim
  | v2 wire =>
    obtain ⟨hinit, hstored, hnow⟩ := h
    simp only [Ciphertext.decrypt, sessionCall, sessionDecrypt_unread hinit hnow hstored]
  | v3 iv ct wire =>
    obtain ⟨hinit, hstored, hnow⟩ := h
    simp only [Ciphertext.decrypt, sessionCall, sessionDecrypt_unread hinit hnow hstored]

theorem mem_setMessages {list : List ShownMessage} {m : ShownMessage}
    (h : ∀ m' ∈ list, m'.id ≠ m.id) : m ∈ setMessages list m := by
  have hnone : (list.any fun m' => m'.id = m.id) = false := by
    simpa [List.any_eq_false] using h
  unfold setMessages
  rw [hnone, if_neg Bool.false_ne_true]
  split
  case h_1 i hi =>
    obtain ⟨hlt, -⟩ := List.findIdx?_eq_some_iff_getElem.mp hi
    exact List.mem_set hlt m
  case h_2 => exact List.mem_append_right _ (List.mem_singleton.mpr rfl)

/-- The message is a text, and one that `v2` and `v2g` tell from their own placeholders. -/
structure IncomingMessage.IsText (d : Device P) (msg : IncomingMessage P) (plaintext : Bytes) :
    Prop where
  noFile : msg.fileUrl = none
  unmarked : (msg.content matches .v3 ..) ∨ startsWith "[🔒" (d.decode plaintext) = false

theorem IncomingMessage.IsText.open {d : Device P} {msg : IncomingMessage P} {plaintext : Bytes}
    (h : msg.IsText d plaintext) :
    msg.open d (.ok plaintext) = (d.decode plaintext, some (d.decode plaintext), none) := by
  obtain ⟨id, senderId, fileUrl, content⟩ := msg
  obtain rfl : fileUrl = none := h.noFile
  cases content with
  | v3 iv ct envelope => rfl
  | v2 wire =>
    have hmark := h.unmarked.resolve_left Bool.false_ne_true
    simp only [IncomingMessage.open, Option.isSome_none, Bool.false_eq_true, if_false, hmark]
  | v2g data =>
    have hmark := h.unmarked.resolve_left Bool.false_ne_true
    simp only [IncomingMessage.open, Option.isSome_none, Bool.false_eq_true, if_false, hmark]

theorem IncomingMessage.IsText.calls {d : Device P} {msg : IncomingMessage P} {plaintext : Bytes}
    (h : msg.IsText d plaintext) (mediaKeys : Nat → Option Bytes) (fresh : Handler → P.Secret)
    (handler : Handler) : msg.calls d mediaKeys fresh handler = msg.content.decrypt d (fresh handler) := by
  cases handler with
  | conversations => rfl
  | messages => simp [IncomingMessage.calls, h.noFile]

section
variable {d : Device P} {msg : IncomingMessage P} {fresh : Handler → P.Secret}
  {stored : msg.content.Stored} {list : List ShownMessage} {plaintexts : Nat → Option String}
  {mediaKeys : Nat → Option Bytes} {plaintext : Bytes}

/-- What the decryption of `useMessages.onMessage` has come to, and what it has led to. -/
structure Follows (d : Device P) (msg : IncomingMessage P) (fresh : Handler → P.Secret)
    (list : List ShownMessage) (plaintext : Bytes) (w : Page msg.content.Stored) : Prop where
  loaded : ∀ v, w.memory.phase .messages = .loaded v →
    (msg.content.decrypt d (fresh .messages) v).2 = .ok plaintext
  computed : ∀ v saves result, w.memory.phase .messages = .computed v saves result →
    result = .ok plaintext
  done : ∀ result, w.memory.phase .messages = .done result → result = .ok plaintext
  before : w.finished .messages = false → w.list = list ∧ w.saving = []
  after : w.finished .messages = true →
    (∃ m ∈ w.list, m.id = some msg.id ∧ m.content = d.decode plaintext) ∧
      (w.saving = [(msg.id, d.decode plaintext)] ∨
        w.saving = [] ∧ w.plaintexts msg.id = some (d.decode plaintext))

theorem Follows.run {w : Page msg.content.Stored} (h : Follows d msg fresh list plaintext w)
    (htext : msg.IsText d plaintext)
    (hopen : (msg.content.decrypt d (fresh .messages) stored).2 = .ok plaintext)
    {handler : Handler} (hintime : InTime msg stored w (.run handler)) :
    Follows d msg fresh list plaintext
      { w with memory := CellCall.advance (msg.calls d mediaKeys fresh) w.memory handler } := by
  cases handler with
  | conversations =>
    have hphase : (CellCall.advance (msg.calls d mediaKeys fresh) w.memory .conversations).phase
        .messages = w.memory.phase .messages := by
      unfold CellCall.advance
      cases w.memory.phase .conversations <;> rfl
    refine ⟨?_, ?_, ?_, h.before, h.after⟩ <;> rw [hphase]
    · exact h.loaded
    · exact h.computed
    · exact h.done
  | messages =>
    have hcalls := htext.calls mediaKeys fresh .messages
    unfold CellCall.advance
    cases hp : w.memory.phase .messages with
    | idle =>
      have hload : (msg.content.decrypt d (fresh .messages) w.memory.cell).2 = .ok plaintext := by
        rcases hintime hp with hcell | hbrings
        · rw [hcell, hopen]
        · rw [decrypt_bringsSession hbrings, hopen]
      refine ⟨fun v hv => ?_, fun _ _ _ hv => ?_, fun _ hv => ?_, h.before, h.after⟩ <;>
        simp only [Function.update_self] at hv <;> cases hv
      exact hload
    | loaded v =>
      refine ⟨fun _ hv => ?_, fun _ _ _ hv => ?_, fun _ hv => ?_, h.before, h.after⟩ <;>
        simp only [Function.update_self, hcalls] at hv <;> cases hv
      exact h.loaded v hp
    | computed v saves result =>
      refine ⟨fun _ hv => ?_, fun _ _ _ hv => ?_, fun _ hv => ?_, h.before, h.after⟩ <;>
        simp only [Function.update_self] at hv <;> cases hv
      exact h.computed v saves result hp
    | done result => exact h

theorem Follows.finish {w : Page msg.content.Stored} (h : Follows d msg fresh list plaintext w)
    (htext : msg.IsText d plaintext) (hnew : ∀ m ∈ list, m.id ≠ some msg.id)
    {result : Except String Bytes} {handler : Handler} (hp : w.memory.phase handler = .done result)
    (hfinished : ¬w.finished handler) :
    Follows d msg fresh list plaintext (w.finish d msg result handler) := by
  cases handler with
  | conversations => exact ⟨h.loaded, h.computed, h.done, h.before, h.after⟩
  | messages =>
    obtain rfl := h.done result hp
    obtain ⟨hlist, hsaving⟩ := h.before (Bool.eq_false_iff.mpr hfinished)
    refine ⟨h.loaded, h.computed, h.done, fun hf => ?_, fun _ => ?_⟩
    · simp [Page.finish] at hf
    · simp only [Page.finish, htext.open, hlist, hsaving]
      exact ⟨⟨_, mem_setMessages hnew, rfl, rfl⟩, .inl rfl⟩

theorem Follows.save {w : Page msg.content.Stored} (h : Follows d msg fresh list plaintext w)
    (mediaKeys : Nat → Option Bytes) : Follows d msg fresh list plaintext
      (w.next d msg (msg.calls d mediaKeys fresh) .save) := by
  rcases hsaving : w.saving with _ | ⟨⟨id, plain⟩, saving⟩
  · simpa only [Page.next, hsaving] using h
  simp only [Page.next, hsaving]
  refine ⟨h.loaded, h.computed, h.done, fun hf => ?_, fun hf => ?_⟩
  · cases hsaving.symm.trans (h.before hf).2
  · obtain ⟨hshown, hsaved⟩ := h.after hf
    refine ⟨hshown, .inr ?_⟩
    rcases hsaved with hsaved | ⟨hnil, -⟩
    · cases hsaving.symm.trans hsaved
      exact ⟨rfl, Function.update_self ..⟩
    · cases hsaving.symm.trans hnil

/-- **Shown and cached**: a text that can be decrypted when it comes in is shown and cached, in every
run in which `useMessages.onMessage` is in time. -/
theorem incoming_received (d : Device P) (msg : IncomingMessage P) (fresh : Handler → P.Secret)
    (stored : msg.content.Stored) (list : List ShownMessage) (plaintexts : Nat → Option String)
    (mediaKeys : Nat → Option Bytes) (plaintext : Bytes)
    (hopen : (msg.content.decrypt d (fresh .messages) stored).2 = .ok plaintext)
    (hnew : ∀ m ∈ list, m.id ≠ some msg.id) (htext : msg.IsText d plaintext)
    {w : Page msg.content.Stored}
    (hw : ((page d msg fresh stored list plaintexts mediaKeys).restrict (InTime msg stored)).Reachable
      w) (hquiet : w.Quiescent) : w.Received d msg plaintext := by
  have hfollows : Follows d msg fresh list plaintext w := by
    refine Machine.Reachable.invariant
      (M := (page d msg fresh stored list plaintexts mediaKeys).restrict (InTime msg stored))
      (I := Follows d msg fresh list plaintext) ⟨nofun, nofun, nofun, fun _ => ⟨rfl, rfl⟩, nofun⟩ ?_ hw
    rintro w step - h ⟨henabled, hintime⟩
    cases step with
    | run handler => exact h.run htext hopen hintime
    | finish handler =>
      obtain ⟨⟨result, hp⟩, hfinished⟩ := henabled
      show Follows d msg fresh list plaintext (w.next d msg (msg.calls d mediaKeys fresh) (.finish handler))
      simp only [Page.next, hp]
      exact h.finish htext hnew hp hfinished
    | save => exact h.save mediaKeys
  obtain ⟨hshown, hsaved⟩ := hfollows.after (hquiet.1 .messages)
  refine ⟨hshown, (hsaved.resolve_left fun hsaving => ?_).2⟩
  cases hquiet.2.symm.trans hsaving

end

/-! ## A message that comes in -/

def sampleDevice : Device symbolic where
  identity := sampleIdentity 20
  deviceKeys := ⟨keyPair 22, keyPair 23⟩
  decode := fun b => String.ofList (b.map fun x => Char.ofNat x.toNat)
  importKey := fun _ => none
  b64Dec := fun _ => none

/-- The session that the first wire brings. -/
def sampleStored : Option (RatchetState symbolic) :=
  (sampleWires.head?.bind fun first => (sessionDecrypt (sampleIdentity 20).ikDhSecret
    (sampleIdentity 20).spkSecret none first.2 (keyPair 40)).toOption.join).map Prod.fst

/-- The second wire, which carries no init message. -/
def secondMessage : IncomingMessage symbolic :=
  ⟨5, 1, none, .v2 ((sampleWires[1]?.map Prod.snd).getD ⟨none, none⟩)⟩

def samplePage : Machine (Page secondMessage.content.Stored) PageStep :=
  page sampleDevice secondMessage (fun _ => keyPair 41) sampleStored [] (fun _ => none) (fun _ => none)

instance (w : Page secondMessage.content.Stored) (step : PageStep) :
    Decidable (samplePage.enabled w step) :=
  inferInstanceAs (Decidable (w.Enabled secondMessage.content.locked step))

/-- `useMessages.onMessage` decrypts first. -/
def messagesFirst : List PageStep := [
  .run .messages, .run .messages, .run .messages, .run .conversations, .run .conversations,
  .run .conversations, .finish .messages, .finish .conversations, .save]

/-- `useConversations.onMessage` decrypts first. -/
def conversationsFirst : List PageStep := [
  .run .conversations, .run .conversations, .run .conversations, .run .messages, .run .messages,
  .run .messages, .finish .conversations, .finish .messages]

theorem incoming_received_sample :
    (samplePage.exec samplePage.init messagesFirst).Received sampleDevice secondMessage [8] := by
  have hallowed : samplePage.Allowed samplePage.init messagesFirst := by decide +kernel
  obtain ⟨h₁, h₂, h₃, h₄, h₅, h₆, h₇, h₈, h₉, -⟩ := hallowed
  refine incoming_received sampleDevice secondMessage (fun _ => keyPair 41) sampleStored []
    (fun _ => none) (fun _ => none) [8] (by decide +kernel) nofun ⟨rfl, .inr (by decide +kernel)⟩
    (Machine.reachable_iff.mpr ⟨messagesFirst, ?_, rfl⟩) (by decide +kernel)
  exact ⟨⟨h₁, fun _ => .inl rfl⟩, ⟨h₂, fun h => by cases h⟩, ⟨h₃, fun h => by cases h⟩,
    ⟨h₄, trivial⟩, ⟨h₅, trivial⟩, ⟨h₆, trivial⟩, ⟨h₇, trivial⟩, ⟨h₈, trivial⟩, ⟨h₉, trivial⟩,
    trivial⟩

/-- The used key is gone: a placeholder is shown, and nothing is cached. -/
theorem not_received : ∃ w, samplePage.Reachable w ∧ w.Quiescent ∧
    (secondMessage.content.decrypt sampleDevice (keyPair 41) sampleStored).2 = .ok [8] ∧
    ¬w.Received sampleDevice secondMessage [8] :=
  ⟨_, Machine.reachable_iff.mpr ⟨conversationsFirst, by decide +kernel, rfl⟩, by decide +kernel⟩

end Vesper.Client
