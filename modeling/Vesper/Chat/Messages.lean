import Vesper.Server.Database

/-!
# The list of messages

The list that the hook `useMessages` keeps for the conversation that is open, and what its callbacks make
of it. An entry without identifier is optimistic: it waits for the echo of its send.
-/

namespace Vesper.Chat
open Server (UserId DeviceId MessageId Text Time MessageKeyEnvelope)

/-! ## Entries -/

/-- `send` tells by which send the entry came into the list. The source has no such field, and nothing
reads it. -/
structure Message where
  id : Option MessageId
  senderId : UserId
  content : Text
  fileUrl : Option Text
  editedAt : Option Time
  senderDeviceId : Option DeviceId
  envelopes : List MessageKeyEnvelope
  isPending : Bool
  queueId : Option Nat
  pendingCipher : Option Text
  send : Option Nat
  deriving DecidableEq

/-- `text.startsWith(start)` -/
def startsWith (start : String) (text : Text) : Bool :=
  (start.toList.map fun c => UInt16.ofNat c.toNat).isPrefixOf text

def looksEncrypted (s : Text) : Bool :=
  20 < s.length && (startsWith "v2:" s || startsWith "v2g:" s || startsWith "v3:" s ||
    s.all fun u => decide (65 ≤ u ∧ u ≤ 90 ∨ 97 ≤ u ∧ u ≤ 122 ∨ 48 ≤ u ∧ u ≤ 57 ∨ u = 95 ∨ u = 45))

/-- A text that JavaScript takes for true. -/
def truthy (text : Option Text) : Bool := text.any (· ≠ [])

namespace Message

/-- Whether the content is a ciphertext under `v3`, with its envelopes. -/
def isV3 (m : Message) : Bool := startsWith "v3:" m.content && m.senderDeviceId.isSome && m.envelopes ≠ []

/-- An entry of the user that no echo has replaced yet. -/
def unconfirmed (currentUserId : UserId) (m : Message) : Bool := m.id.isNone && m.senderId = currentUserId

def carries (currentUserId : UserId) (rawCipher : Text) (m : Message) : Bool :=
  m.unconfirmed currentUserId && m.pendingCipher = some rawCipher

end Message

/-! ## Matching an echo -/

section
variable (currentUserId : UserId) (rawCipher : Text)

/-- The entry that `onMessage` takes an echo for, in the list of the last render. -/
def pendingMessage (messages : List Message) : Option Message :=
  (messages.find? (·.carries currentUserId rawCipher)).or (messages.reverse.find? (·.unconfirmed currentUserId))

/-- The loop that runs down from the end of the list. -/
def lastIndex {α : Type} (p : α → Bool) : List α → Option Nat
  | [] => none
  | x :: xs => ((lastIndex p xs).map (· + 1)).or (if p x then some 0 else none)

/-- The same entry again, as the updater of the list finds it. -/
def pendingIndex (prev : List Message) : Option Nat :=
  (prev.findIdx? (·.carries currentUserId rawCipher)).or (lastIndex (·.unconfirmed currentUserId) prev)

/-- What the updater puts in the place of the optimistic entry. -/
def mergedWith (decryptedMsg opt : Message) : Message :=
  { decryptedMsg with
    content := if truthy opt.fileUrl then [] else opt.content
    isPending := false
    queueId := none
    pendingCipher := none
    send := opt.send }

/-- The updater of the list for an own message, and whether it also clears `hasMoreNewer`. -/
def mergeEcho (decryptedMsg : Message) (prev : List Message) : List Message × Bool :=
  if decryptedMsg.id.isSome && prev.any (·.id = decryptedMsg.id) then (prev, false)
  else match pendingIndex currentUserId rawCipher prev with
    | some idx => (prev.modify idx (mergedWith decryptedMsg), false)
    | none => (prev ++ [decryptedMsg], true)

end

/-- The updater of the list for the message of another member. -/
def mergePeer (decryptedMsg : Message) (prev : List Message) : List Message × Bool :=
  if decryptedMsg.id.isSome && prev.any (·.id = decryptedMsg.id) then (prev, false)
  else match prev.findIdx? fun m => m.id.isNone && m.senderId = decryptedMsg.senderId &&
      m.fileUrl = decryptedMsg.fileUrl && (truthy decryptedMsg.fileUrl || m.content = decryptedMsg.content) with
    | some idx => (prev.set idx { decryptedMsg with isPending := false, queueId := none }, false)
    | none => (prev ++ [decryptedMsg], true)

/-- The updater of the list for a message that is scheduled. -/
def addScheduled (decryptedMsg : Message) (prev : List Message) : List Message :=
  if prev.any (·.id = decryptedMsg.id) then prev else prev ++ [decryptedMsg]

/-! ## What the matching finds -/

theorem lastIndex_eq_none {α : Type} {p : α → Bool} {l : List α} (h : lastIndex p l = none) :
    l.reverse.find? p = none := by
  induction l with
  | nil => rfl
  | cons x xs ih =>
    rw [lastIndex] at h
    cases hlast : lastIndex p xs with
    | some j =>
      rw [hlast] at h
      cases h
    | none =>
      rw [hlast] at h
      have hx : ¬p x := fun hx => by simp [hx] at h
      rw [List.reverse_cons, List.find?_append, ih hlast]
      simp [hx]

theorem lastIndex_eq_some {α : Type} {p : α → Bool} {l : List α} {i : Nat} (h : lastIndex p l = some i) :
    ∃ l₁ x l₂, l = l₁ ++ x :: l₂ ∧ l₁.length = i ∧ l.reverse.find? p = some x := by
  induction l generalizing i with
  | nil => cases h
  | cons x xs ih =>
    rw [lastIndex] at h
    cases hlast : lastIndex p xs with
    | some j =>
      rw [hlast] at h
      cases h
      obtain ⟨l₁, y, l₂, rfl, rfl, hfind⟩ := ih hlast
      refine ⟨x :: l₁, y, l₂, rfl, rfl, ?_⟩
      rw [List.reverse_cons, List.find?_append, hfind]
      rfl
    | none =>
      rw [hlast] at h
      by_cases hx : p x
      · rw [if_pos hx] at h
        cases h
        refine ⟨[], x, xs, rfl, rfl, ?_⟩
        rw [List.reverse_cons, List.find?_append, lastIndex_eq_none hlast]
        simp [hx]
      · rw [if_neg hx] at h
        cases h

section
variable {currentUserId : UserId} {rawCipher : Text} {prev : List Message}

/-- Both searches find the same entry. -/
theorem pendingIndex_eq_some {i : Nat} (h : pendingIndex currentUserId rawCipher prev = some i) :
    ∃ l₁ opt l₂, prev = l₁ ++ opt :: l₂ ∧ l₁.length = i ∧ pendingMessage currentUserId rawCipher prev = some opt := by
  unfold pendingIndex at h
  unfold pendingMessage
  cases hcarries : prev.findIdx? (·.carries currentUserId rawCipher) with
  | some j =>
    rw [hcarries] at h
    cases h
    obtain ⟨hlt, hx, hbefore⟩ := List.findIdx?_eq_some_iff_getElem.mp hcarries
    refine ⟨prev.take i, prev[i], prev.drop (i + 1), ?_, ?_, ?_⟩
    · rw [← List.drop_eq_getElem_cons hlt, List.take_append_drop]
    · exact List.length_take_of_le hlt.le
    · have hfind : prev.find? (·.carries currentUserId rawCipher) = some prev[i] :=
        List.find?_eq_some_iff_getElem.mpr ⟨hx, i, hlt, rfl, fun k hk => by simpa using hbefore k hk⟩
      rw [hfind]
      rfl
  | none =>
    rw [hcarries] at h
    obtain ⟨l₁, opt, l₂, hprev, hlength, hfind⟩ := lastIndex_eq_some h
    refine ⟨l₁, opt, l₂, hprev, hlength, ?_⟩
    have hnone : prev.find? (·.carries currentUserId rawCipher) = none := by
      rw [List.findIdx?_eq_none_iff] at hcarries
      exact List.find?_eq_none.mpr fun m hm => by simpa using hcarries m hm
    rw [hnone, hfind]
    rfl

theorem pendingIndex_eq_none (h : pendingIndex currentUserId rawCipher prev = none) :
    pendingMessage currentUserId rawCipher prev = none := by
  obtain ⟨hcarries, hlast⟩ := Option.or_eq_none_iff.mp h
  refine Option.or_eq_none_iff.mpr ⟨?_, lastIndex_eq_none hlast⟩
  rw [List.findIdx?_eq_none_iff] at hcarries
  exact List.find?_eq_none.mpr fun m hm => by simpa using hcarries m hm

theorem unconfirmed_of_pendingMessage {opt : Message} (h : pendingMessage currentUserId rawCipher prev = some opt) :
    opt ∈ prev ∧ opt.unconfirmed currentUserId := by
  unfold pendingMessage at h
  cases hcarries : prev.find? (·.carries currentUserId rawCipher) with
  | some m =>
    rw [hcarries] at h
    cases h
    have hm := List.find?_some hcarries
    exact ⟨List.mem_of_find?_eq_some hcarries, (Bool.and_eq_true _ _).mp hm |>.1⟩
  | none =>
    rw [hcarries] at h
    have hm := List.find?_some h
    exact ⟨List.mem_reverse.mp (List.mem_of_find?_eq_some h), hm⟩

theorem not_unconfirmed_of_pendingMessage {m : Message} (h : pendingMessage currentUserId rawCipher prev = none)
    (hm : m ∈ prev) : ¬m.unconfirmed currentUserId := by
  obtain ⟨-, hlast⟩ := Option.or_eq_none_iff.mp h
  exact List.find?_eq_none.mp hlast m (List.mem_reverse.mpr hm)

theorem modify_append_cons {α : Type} (f : α → α) (l₁ : List α) (x : α) (l₂ : List α) :
    (l₁ ++ x :: l₂).modify l₁.length f = l₁ ++ f x :: l₂ := by
  induction l₁ with
  | nil => rfl
  | cons y l₁ ih => exact congrArg (y :: ·) ih

theorem eq_or_mem_eraseIdx {α : Type*} {l : List α} {j : Nat} {x y : α} (h : l[j]? = some x) (hy : y ∈ l) :
    y = x ∨ y ∈ l.eraseIdx j := by
  obtain ⟨i, hi⟩ := List.mem_iff_getElem?.mp hy
  by_cases heq : i = j
  · subst heq
    exact .inl (Option.some.inj (hi.symm.trans h))
  · exact .inr (List.mem_eraseIdx_iff_getElem?.mpr ⟨i, heq, hi⟩)

theorem eq_or_mem_set {α : Type*} {l : List α} {j : Nat} {x y : α} (z : α) (h : l[j]? = some x) (hy : y ∈ l) :
    y = x ∨ y ∈ l.set j z := by
  obtain ⟨i, hi⟩ := List.mem_iff_getElem?.mp hy
  by_cases heq : i = j
  · subst heq
    exact .inl (Option.some.inj (hi.symm.trans h))
  · exact .inr (List.mem_iff_getElem?.mpr ⟨i, by rw [List.getElem?_set_ne (Ne.symm heq), hi]⟩)

/-- What the updater makes of an echo. -/
theorem mergeEcho_cases (currentUserId : UserId) (rawCipher : Text) (decryptedMsg : Message) (prev : List Message) :
    (mergeEcho currentUserId rawCipher decryptedMsg prev = (prev, false) ∧
      decryptedMsg.id.isSome ∧ ∃ m ∈ prev, m.id = decryptedMsg.id) ∨
    (∃ l₁ opt l₂, prev = l₁ ++ opt :: l₂ ∧ pendingMessage currentUserId rawCipher prev = some opt ∧
      mergeEcho currentUserId rawCipher decryptedMsg prev = (l₁ ++ mergedWith decryptedMsg opt :: l₂, false) ∧
      ¬(decryptedMsg.id.isSome ∧ ∃ m ∈ prev, m.id = decryptedMsg.id)) ∨
    pendingMessage currentUserId rawCipher prev = none ∧
      mergeEcho currentUserId rawCipher decryptedMsg prev = (prev ++ [decryptedMsg], true) ∧
      ¬(decryptedMsg.id.isSome ∧ ∃ m ∈ prev, m.id = decryptedMsg.id) := by
  unfold mergeEcho
  by_cases hthere : decryptedMsg.id.isSome && prev.any (·.id = decryptedMsg.id)
  · have hsplit : decryptedMsg.id.isSome ∧ ∃ m ∈ prev, m.id = decryptedMsg.id := by
      simpa using hthere
    exact .inl ⟨if_pos hthere, hsplit⟩
  · have hsplit : ¬(decryptedMsg.id.isSome ∧ ∃ m ∈ prev, m.id = decryptedMsg.id) := by
      simpa using hthere
    rw [if_neg hthere]
    cases hindex : pendingIndex currentUserId rawCipher prev with
    | some idx =>
      obtain ⟨l₁, opt, l₂, rfl, rfl, hopt⟩ := pendingIndex_eq_some hindex
      exact .inr (.inl ⟨l₁, opt, l₂, rfl, hopt, congrArg (·, false) (modify_append_cons ..), hsplit⟩)
    | none => exact .inr (.inr ⟨pendingIndex_eq_none hindex, rfl, hsplit⟩)

end

end Vesper.Chat
