import Mathlib.Data.List.Pairwise
import Vesper.Client.Chains
import Vesper.Lib.Machine

/-!
# Keys after a device sync

`exportSyncRecords` and `importSyncRecord` of `cryptoDb.ts` copy the sessions and sender states of
the source to the target, and nothing tells the copies apart: both devices stand in front of the
same key of the same chain. No key serves two plaintexts just as long as the devices happen to seal
the same plaintexts on a chain, one after the other, as far as both have sent on it.
-/

namespace Vesper.Client

/-! ## Records -/

section
variable {P : Primitives}

/-- The column `binary` of `SYNC_STORES`. -/
def StoreName.binary : StoreName → Bool
  | .msgPlaintext => false
  | .identity | .ratchet | .groupSender | .groupReceiver | .mediaKeys => true

/-- `{}`, which `JSON.stringify` makes of a buffer. -/
def emptyObject : Bytes := [0x7b, 0x7d]

/-- The value bytes of a record: a buffer as it is, or the JSON text of the value. -/
def exportValue (binary : Bool) : Content P → Content P
  | .object json => .bytes json
  | buffer => if binary then buffer else .bytes emptyObject

/-- The value that is put, unless `JSON.parse` throws. -/
def importValue (binary : Bool) : Content P → Option (Content P)
  | .bytes b => some (if binary then .bytes b else .object b)
  | buffer => if binary then some buffer else none

/-- The chain of a copy is that of the original. -/
theorem head_importValue {binary : Bool} {c v : Content P}
    (h : importValue binary (exportValue binary c) = some v) : v.head = c.head ∨ v.head = none := by
  cases binary <;> cases c <;> cases h <;> first | exact .inl rfl | exact .inr rfl

end

/-! ## Two devices -/

/-- The two devices of a user. -/
inductive SyncSide where
  | source | target
  deriving DecidableEq

/-- The key databases of both devices, the records on their way, what was released, the random values
drawn, and what was sealed, one after the other, with the keys of a chain that a device has passed. -/
structure Devices where
  db : SyncSide × Slot → Option (Content symbolic)
  exportedStores : List StoreName
  exported : Slot → Option (Content symbolic × (ChainId → List Bytes))
  imported : List Slot
  released : List symbolic.Cipher
  minted : Minted
  sent : SyncSide × ChainId → List Bytes

inductive DeviceEvent where
  | call (d : SyncSide) (r : Request symbolic) (a : Answers symbolic)
  | exportStore (name : StoreName)
  | importRecord (slot : Slot)

/-- The plaintext that a call seals goes to the chain on which the value it saves stands. -/
def Devices.passed (s : Devices) (d : SyncSide) (r : Request symbolic) (o : Outcome symbolic) :
    SyncSide × ChainId → List Bytes :=
  match o.saved.bind Content.head, o.released with
  | some h, some _ => Function.update s.sent (d, h.chain) (s.sent (d, h.chain) ++ r.plaintext.toList)
  | _, _ => s.sent

def Devices.call (s : Devices) (d : SyncSide) (r : Request symbolic) (a : Answers symbolic) : Devices :=
  match r.run a (s.db (d, r.slot)) with
  | .error _ => { s with minted := s.minted.add r a }
  | .ok o =>
    { s with
      db := match o.saved with
        | some v => Function.update s.db (d, r.slot) (some v)
        | none => s.db
      released := s.released ++ o.released.toList
      minted := s.minted.add r a
      sent := s.passed d r o }

/-- All records of a store are read in one transaction. -/
def Devices.exportStore (s : Devices) (name : StoreName) : Devices :=
  { s with
    exportedStores := name :: s.exportedStores
    exported := fun slot =>
      if slot.1 = name then
        (s.db (.source, slot)).map fun c => (c, fun chain => s.sent (.source, chain))
      else s.exported slot }

def Devices.importRecord (s : Devices) (slot : Slot) : Devices :=
  match s.exported slot with
  | none => s
  | some (c, past) =>
    match importValue slot.1.binary (exportValue slot.1.binary c) with
    | none => { s with imported := slot :: s.imported }
    | some v =>
      { s with
        db := Function.update s.db (.target, slot) (some v)
        imported := slot :: s.imported
        sent := match v.head with
          | some h => Function.update s.sent (.target, h.chain) (past h.chain)
          | none => s.sent }

/-- Both devices call whatever they like, before a sync, while it runs and after it. -/
def deviceSync : Machine Devices DeviceEvent where
  init :=
    { db := fun _ => none, exportedStores := [], exported := fun _ => none, imported := [],
      released := [], minted := ⟨[], [], []⟩, sent := fun _ => [] }
  enabled s
    | .call _ _ a => s.minted.Fresh a
    | .exportStore name => name ∉ s.exportedStores
    | .importRecord slot => slot ∉ s.imported
  next s
    | .call d r a => s.call d r a
    | .exportStore name => s.exportStore name
    | .importRecord slot => s.importRecord slot

instance : ∀ s e, Decidable (deviceSync.enabled s e)
  | s, .call _ _ a => inferInstanceAs (Decidable (s.minted.Fresh a))
  | s, .exportStore name => inferInstanceAs (Decidable (name ∉ s.exportedStores))
  | s, .importRecord slot => inferInstanceAs (Decidable (slot ∉ s.imported))

/-! ## What the copies have sent -/

/-- A device comes by a chain by starting it or by importing it. -/
def Devices.Holds (s : Devices) (d : SyncSide) (owner : SyncSide × Slot) : Prop :=
  owner.1 = d ∨ owner.1 = .source ∧ owner.2 ∈ s.imported

/-- Every value stands behind what its device has sealed on the chain, and so does every record on its
way behind what the source had sealed. -/
structure Devices.Kept (s : Devices) (R : ChainId → Option (symbolic.Block × (SyncSide × Slot))) : Prop where
  registry : Registry s.minted R
  stands : ∀ d slot v h, s.db (d, slot) = some v → v.head = some h →
    ∃ d', h.At R (d', slot) (s.sent (d, h.chain)).length ∧ s.Holds d (d', slot)
  copied : ∀ slot c past h, s.exported slot = some (c, past) → c.head = some h →
    h.At R (.source, slot) (past h.chain).length ∧ past h.chain <+: s.sent (.source, h.chain)
  held : ∀ d chain, s.sent (d, chain) ≠ [] → ∃ b owner, R chain = some (b, owner) ∧ s.Holds d owner
  log : ∃ log, Book R log s.released ∧
    ∀ e : LogEntry, e ∈ log ↔ ∃ d, (s.sent (d, e.chain))[e.n]? = some e.plaintext

section
variable {s : Devices} {R R' : ChainId → Option (symbolic.Block × (SyncSide × Slot))} {d d' : SyncSide}
  {slot : Slot} {h : Head symbolic} {v : Content symbolic} {r : Request symbolic}
  {a : Answers symbolic} {log : List LogEntry} {p : Bytes}

theorem Devices.Kept.init : (deviceSync.init).Kept fun _ => none where
  registry := .nil
  stands _ _ _ _ hv := absurd hv (Option.some_ne_none _).symm
  copied _ _ _ _ hc := absurd hc (Option.some_ne_none _).symm
  held _ _ hne := absurd rfl hne
  log := ⟨[], .nil, fun e => by simp [deviceSync]⟩

/-- A chain that is not registered was never used. -/
theorem Devices.Kept.unused (hk : s.Kept R) {chain : ChainId} (h : R chain = none) (d : SyncSide) :
    s.sent (d, chain) = [] := by
  by_contra hne
  obtain ⟨b, owner, hc, -⟩ := hk.held d chain hne
  rw [h] at hc
  cases hc

theorem Devices.Kept.mint (hk : s.Kept R) {m : Minted} (hR' : Registry m R') (he : Extends R R') :
    Devices.Kept { s with minted := m } R' where
  registry := hR'
  stands d slot v h hv hh := by
    obtain ⟨d', hat, hholds⟩ := hk.stands d slot v h hv hh
    exact ⟨d', hat.mono he, hholds⟩
  copied slot c past h hc hh := by
    obtain ⟨hat, hpre⟩ := hk.copied slot c past h hc hh
    exact ⟨hat.mono he, hpre⟩
  held d chain hne := by
    obtain ⟨b, owner, hc, hholds⟩ := hk.held d chain hne
    exact ⟨b, owner, he _ _ hc, hholds⟩
  log := by
    obtain ⟨log, hbook, hlog⟩ := hk.log
    exact ⟨log, hbook.mono he, hlog⟩

/-- The chain from which a call goes on is registered, perhaps as a new one. -/
theorem Devices.Kept.prepare (hk : s.Kept R) (hf : s.minted.Fresh a) {base : Option (Head symbolic)}
    (hbase : Base a (r.met a) ((s.db (d, r.slot)).bind Content.head) base) :
    ∃ R', Devices.Kept { s with minted := s.minted.add r a } R' ∧ ∀ h, base = some h →
      ∃ d', h.At R' (d', r.slot) (s.sent (d, h.chain)).length ∧ s.Holds d (d', r.slot) := by
  rcases hbase with rfl | rfl | ⟨base, hstart, rfl⟩
  · refine ⟨R, hk.mint hk.registry.add .refl, fun h hh => ?_⟩
    obtain ⟨v, hv, hhead⟩ := Option.bind_eq_some_iff.mp hh
    exact hk.stands d r.slot v h hv hhead
  · exact ⟨R, hk.mint hk.registry.add .refl, nofun⟩
  · obtain ⟨hnone, hR'⟩ := hk.registry.start hf hstart (d, r.slot)
    refine ⟨_, hk.mint hR' (extends_update hnone _), ?_⟩
    intro h hh
    cases hh
    refine ⟨d, ?_, .inl rfl⟩
    rw [hk.unused hnone d]
    exact hstart.at (Function.update_self ..)

/-- A value is saved where its chain belongs. -/
theorem Devices.Kept.save (hk : s.Kept R) (hv : ∀ h, v.head = some h →
      ∃ d', h.At R (d', slot) (s.sent (d, h.chain)).length ∧ s.Holds d (d', slot)) :
    Devices.Kept { s with db := Function.update s.db (d, slot) (some v) } R where
  registry := hk.registry
  stands d₁ slot₁ v₁ h₁ hv₁ hh₁ := by
    dsimp only at hv₁
    rw [Function.update_apply] at hv₁
    split at hv₁
    · next heq =>
      cases heq
      cases hv₁
      exact hv h₁ hh₁
    · exact hk.stands d₁ slot₁ v₁ h₁ hv₁ hh₁
  copied := hk.copied
  held := hk.held
  log := hk.log

/-- A chain belongs to one slot. -/
theorem Head.At.slot_eq {h₁ : Head symbolic} {slot₁ : Slot} {d₁ : SyncSide} {n n₁ : Nat}
    (h₁at : h₁.At R (d₁, slot₁) n₁) (hat : h.At R (d', slot) n) (heq : h₁.chain = h.chain) :
    slot₁ = slot := by
  obtain ⟨b₁, hc₁, -⟩ := h₁at
  obtain ⟨b, hc, -⟩ := hat
  rw [heq, hc] at hc₁
  cases hc₁
  rfl

/-- Key and plaintext are logged. -/
theorem mem_log_append {sent : SyncSide × ChainId → List Bytes} {chain : ChainId}
    (hlog : ∀ e : LogEntry, e ∈ log ↔ ∃ d, (sent (d, e.chain))[e.n]? = some e.plaintext) (e : LogEntry) :
    e ∈ log ++ [⟨chain, (sent (d, chain)).length, p⟩] ↔
      ∃ d', (Function.update sent (d, chain) (sent (d, chain) ++ [p]) (d', e.chain))[e.n]? =
        some e.plaintext := by
  rw [List.mem_append, hlog, List.mem_singleton]
  constructor
  · rintro (⟨d', he⟩ | rfl)
    · refine ⟨d', ?_⟩
      rw [Function.update_apply]
      split
      · next heq =>
        rw [heq] at he
        exact getElem?_append_singleton.mpr (.inl he)
      · exact he
    · refine ⟨d, ?_⟩
      rw [Function.update_self]
      exact getElem?_append_singleton.mpr (.inr ⟨rfl, rfl⟩)
  · rintro ⟨d', he⟩
    rw [Function.update_apply] at he
    split at he
    · next heq =>
      rcases getElem?_append_singleton.mp he with he | ⟨hn, hp⟩
      · exact .inl ⟨d', by rwa [heq]⟩
      · right
        obtain ⟨chain', n, q⟩ := e
        obtain ⟨-, rfl⟩ := Prod.mk.inj heq
        exact congrArg₂ (LogEntry.mk _) hn hp
    · exact .inl ⟨d', he⟩

/-- The next key of a chain is used. -/
theorem Devices.Kept.draw (hk : s.Kept R) (p aad : Bytes)
    (hat : h.At R (d', slot) (s.sent (d, h.chain)).length) (hholds : s.Holds d (d', slot))
    (hv : v.head = some h.next) :
    Devices.Kept
      { s with
        db := Function.update s.db (d, slot) (some v)
        released := s.released ++ [h.seal p aad]
        sent := Function.update s.sent (d, h.chain) (s.sent (d, h.chain) ++ [p]) } R where
  registry := hk.registry
  stands d₁ slot₁ v₁ h₁ hv₁ hh₁ := by
    dsimp only at hv₁ ⊢
    rw [Function.update_apply] at hv₁
    split at hv₁
    · next heq =>
      cases heq
      cases hv₁
      rw [hv] at hh₁
      cases hh₁
      refine ⟨d', ?_, hholds⟩
      rw [Head.next_chain, Function.update_self, List.length_append]
      exact hat.next
    · next hne =>
      obtain ⟨o, hat₁, hholds₁⟩ := hk.stands d₁ slot₁ v₁ h₁ hv₁ hh₁
      refine ⟨o, ?_, hholds₁⟩
      rwa [Function.update_of_ne]
      intro heq
      obtain ⟨hd, hchain⟩ := Prod.mk.inj heq
      exact hne (Prod.ext hd (hat₁.slot_eq hat hchain))
  copied slot₁ c past h₁ hc hh₁ := by
    obtain ⟨hat₁, hpre⟩ := hk.copied slot₁ c past h₁ hc hh₁
    refine ⟨hat₁, ?_⟩
    dsimp only
    rw [Function.update_apply]
    split
    · next heq =>
      rw [← heq]
      exact hpre.trans (List.prefix_append ..)
    · exact hpre
  held d₁ chain hne := by
    dsimp only at hne
    rw [Function.update_apply] at hne
    split at hne
    · next heq =>
      cases heq
      obtain ⟨b, hc, -⟩ := hat
      exact ⟨b, _, hc, hholds⟩
    · exact hk.held d₁ chain hne
  log := by
    obtain ⟨log, hbook, hlog⟩ := hk.log
    exact ⟨_, hbook.append hat.seal, mem_log_append hlog⟩

/-- Whatever a call comes to, the copies stay in order. -/
theorem Devices.Kept.call (hk : s.Kept R) (hf : s.minted.Fresh a) : ∃ R', (s.call d r a).Kept R' := by
  unfold Devices.call
  cases hrun : r.run a (s.db (d, r.slot)) with
  | error e => exact ⟨R, hk.mint hk.registry.add .refl⟩
  | ok o =>
    obtain ⟨base, hbase, hmoves⟩ := Request.effect hrun
    obtain ⟨R', hk', hat⟩ := hk.prepare (d := d) hf hbase
    refine ⟨R', ?_⟩
    cases hmoves with
    | idle => simpa [Devices.passed] using hk'
    | rest hv =>
      have hsave := hk'.save (d := d) fun h hh => hat h (hv.symm.trans hh)
      simpa [Devices.passed, hv] using hsave
    | @draw v h p aad hh hplain hv =>
      obtain ⟨d', hat, hholds⟩ := hat h hh
      have hdraw := hk'.draw p aad hat hholds hv
      simpa [Devices.passed, hv, hplain] using hdraw

theorem Devices.Kept.exportStore (hk : s.Kept R) (name : StoreName) : (s.exportStore name).Kept R where
  registry := hk.registry
  stands := hk.stands
  copied slot c past h hc hh := by
    dsimp only [Devices.exportStore] at hc ⊢
    split at hc
    · obtain ⟨c', hdb, heq⟩ := Option.map_eq_some_iff.mp hc
      cases heq
      obtain ⟨o, hat, hholds⟩ := hk.stands .source slot c h hdb hh
      have ho : o = .source := hholds.elim id And.left
      exact ⟨ho ▸ hat, List.prefix_refl _⟩
    · exact hk.copied slot c past h hc hh
  held := hk.held
  log := hk.log

theorem Devices.Kept.mark (hk : s.Kept R) (slot : Slot) :
    Devices.Kept { s with imported := slot :: s.imported } R where
  registry := hk.registry
  stands d slot₁ v h hv hh := by
    obtain ⟨d', hat, hholds⟩ := hk.stands d slot₁ v h hv hh
    exact ⟨d', hat, hholds.imp id fun ho => ⟨ho.1, List.mem_cons_of_mem _ ho.2⟩⟩
  copied := hk.copied
  held d chain hne := by
    obtain ⟨b, owner, hc, hholds⟩ := hk.held d chain hne
    exact ⟨b, owner, hc, hholds.imp id fun ho => ⟨ho.1, List.mem_cons_of_mem _ ho.2⟩⟩
  log := hk.log

/-- The target takes over a chain that it has not used. -/
theorem Devices.Kept.adopt (hk : s.Kept R) {past : List Bytes} (hslot : slot ∈ s.imported)
    (hat : h.At R (.source, slot) past.length) (hpre : past <+: s.sent (.source, h.chain))
    (hunused : s.sent (.target, h.chain) = []) (hv : v.head = some h) :
    Devices.Kept
      { s with
        db := Function.update s.db (.target, slot) (some v)
        sent := Function.update s.sent (.target, h.chain) past } R where
  registry := hk.registry
  stands d₁ slot₁ v₁ h₁ hv₁ hh₁ := by
    dsimp only at hv₁ ⊢
    rw [Function.update_apply] at hv₁
    split at hv₁
    · next heq =>
      cases heq
      cases hv₁
      rw [hv] at hh₁
      cases hh₁
      rw [Function.update_self]
      exact ⟨.source, hat, .inr ⟨rfl, hslot⟩⟩
    · next hne =>
      obtain ⟨o, hat₁, hholds₁⟩ := hk.stands d₁ slot₁ v₁ h₁ hv₁ hh₁
      refine ⟨o, ?_, hholds₁⟩
      rwa [Function.update_of_ne]
      intro heq
      obtain ⟨hd, hchain⟩ := Prod.mk.inj heq
      exact hne (Prod.ext hd (hat₁.slot_eq hat hchain))
  copied slot₁ c past₁ h₁ hc hh₁ := by
    have hne : (SyncSide.source, h₁.chain) ≠ (SyncSide.target, h.chain) := by simp
    dsimp only
    rw [Function.update_of_ne hne]
    exact hk.copied slot₁ c past₁ h₁ hc hh₁
  held d₁ chain hne := by
    dsimp only at hne
    rw [Function.update_apply] at hne
    split at hne
    · next heq =>
      cases heq
      obtain ⟨b, hc, -⟩ := hat
      exact ⟨b, _, hc, .inr ⟨rfl, hslot⟩⟩
    · exact hk.held d₁ chain hne
  log := by
    obtain ⟨log, hbook, hlog⟩ := hk.log
    refine ⟨log, hbook, fun e => (hlog e).trans ?_⟩
    dsimp only
    constructor
    · rintro ⟨d₁, he⟩
      refine ⟨d₁, ?_⟩
      rwa [Function.update_of_ne]
      intro heq
      rw [heq, hunused] at he
      cases he
    · rintro ⟨d₁, he⟩
      rw [Function.update_apply] at he
      split at he
      · next heq =>
        -- what the source had sealed by then, it has still
        obtain ⟨rfl, hchain⟩ := Prod.mk.inj heq
        obtain ⟨rest, hrest⟩ := hpre
        refine ⟨.source, ?_⟩
        rw [hchain, ← hrest, List.getElem?_append_left (List.getElem?_eq_some_iff.mp he).1, he]
      · exact ⟨d₁, he⟩

theorem Devices.Kept.importRecord (hk : s.Kept R) (hslot : slot ∉ s.imported) :
    (s.importRecord slot).Kept R := by
  unfold Devices.importRecord
  cases hexp : s.exported slot with
  | none => exact hk
  | some record =>
    obtain ⟨c, past⟩ := record
    dsimp only
    cases hv : importValue slot.1.binary (exportValue slot.1.binary c) with
    | none => exact hk.mark slot
    | some v =>
      dsimp only
      cases hhead : v.head with
      | none => exact (hk.mark slot).save fun h hh => nomatch hhead.symm.trans hh
      | some h =>
        have hc : c.head = some h := (head_importValue hv).elim (fun heq => heq ▸ hhead)
          fun hnone => nomatch hnone.symm.trans hhead
        obtain ⟨hat, hpre⟩ := hk.copied slot c past h hexp hc
        refine (hk.mark slot).adopt List.mem_cons_self hat hpre ?_ hhead
        by_contra hne
        obtain ⟨b, owner, hreg, hholds⟩ := hk.held .target h.chain hne
        obtain ⟨b', hreg', -⟩ := hat
        rw [hreg] at hreg'
        cases hreg'
        exact hholds.elim nofun fun ho => hslot ho.2

/-- In every run the copies stay in order. -/
theorem deviceSync_kept (hs : deviceSync.Reachable s) : ∃ R, s.Kept R := by
  refine Machine.Reachable.invariant (I := fun s => ∃ R, s.Kept R) ⟨_, .init⟩ ?_ hs
  rintro s e - ⟨R, hk⟩ hen
  cases e with
  | call d r a => exact hk.call hen
  | exportStore name => exact ⟨R, hk.exportStore name⟩
  | importRecord slot => exact ⟨R, hk.importRecord hen⟩

end

/-! ## One plaintext for a key -/

/-- Lists that agree wherever both go on are prefixes one of the other. -/
theorem forall_getElem?_iff_prefix {α : Type} {l l' : List α} :
    (∀ (n : Nat) a b, l[n]? = some a → l'[n]? = some b → a = b) ↔ l <+: l' ∨ l' <+: l := by
  induction l generalizing l' with
  | nil => simp
  | cons a l ih =>
    cases l' with
    | nil => simp
    | cons b l' =>
      rw [List.cons_prefix_cons, List.cons_prefix_cons, eq_comm (a := b), ← and_or_left, ← ih]
      constructor
      · intro h
        exact ⟨h 0 a b rfl rfl, fun n a' b' => h (n + 1) a' b'⟩
      · rintro ⟨rfl, h⟩ n a' b' ha' hb'
        cases n with
        | zero => exact Option.some.inj (ha'.symm.trans hb')
        | succ n => exact h n a' b' ha' hb'

/-- On every chain, one device has sealed what the other has, and perhaps more. -/
def Devices.InStep (s : Devices) : Prop :=
  ∀ chain, s.sent (.source, chain) <+: s.sent (.target, chain) ∨
    s.sent (.target, chain) <+: s.sent (.source, chain)

/-- **Copies in step**: the two devices never use a key and nonce for two plaintexts if and only if
their copies of a chain, as far as both have sent on it, have sealed the same. -/
theorem cloned_keys_unique_iff {s : Devices} (hs : deviceSync.Reachable s) :
    KeysUnique s.released ↔ s.InStep := by
  obtain ⟨R, hk⟩ := deviceSync_kept hs
  obtain ⟨log, hbook, hlog⟩ := hk.log
  rw [hbook.keysUnique_iff hk.registry]
  constructor
  · intro hagree chain
    have hall := hagree.forall_of_forall fun e _ _ _ => rfl
    refine forall_getElem?_iff_prefix.mp fun n p q hp hq => ?_
    exact hall ((hlog ⟨chain, n, p⟩).mpr ⟨_, hp⟩) ((hlog ⟨chain, n, q⟩).mpr ⟨_, hq⟩) rfl rfl
  · intro hstep
    refine List.pairwise_of_forall_mem_list fun e he e' he' hchain hn => ?_
    obtain ⟨d, hp⟩ := (hlog e).mp he
    obtain ⟨d', hq⟩ := (hlog e').mp he'
    rw [← hchain, ← hn] at hq
    have hboth := forall_getElem?_iff_prefix.mpr (hstep e.chain)
    cases d <;> cases d'
    · exact Option.some.inj (hp.symm.trans hq)
    · exact hboth e.n _ _ hp hq
    · exact (hboth e.n _ _ hq hp).symm
    · exact Option.some.inj (hp.symm.trans hq)

/-- The source has a sender key for a group, and the target gets a copy of it. -/
def groupSynced : List DeviceEvent :=
  [.call .source (.encryptBinaryForGroup 7 [1] [2]) (answersOf 11), .exportStore .groupSender,
    .importRecord (.groupSender, "7")]

/-- The target alone goes on sending to the group. -/
def targetGoesOn : List DeviceEvent :=
  groupSynced ++ [.call .target (.encryptForGroup 7 [3]) (answersOf 12)]

/-- Both devices go on sending to the group. -/
def bothGoOn : List DeviceEvent :=
  groupSynced ++ [.call .source (.encryptForGroup 7 [2]) (answersOf 12),
    .call .target (.encryptForGroup 7 [3]) (answersOf 13)]

theorem cloned_keys_unique_alone :
    KeysUnique (deviceSync.exec deviceSync.init targetGoesOn).released ↔
      (deviceSync.exec deviceSync.init targetGoesOn).InStep :=
  cloned_keys_unique_iff (Machine.Reachable.init.exec (by decide))

/-- Each device seals its next message to the group with the same key. -/
theorem clones_share_key : ¬ ∀ s, deviceSync.Reachable s → KeysUnique s.released := by
  intro h
  have hreachable : deviceSync.Reachable (deviceSync.exec deviceSync.init bothGoOn) :=
    Machine.Reachable.init.exec (by decide)
  exact absurd (h _ hreachable) (by decide)

end Vesper.Client
