import Vesper.Crypto.ByteForms
import Vesper.Lib.Slices

/-!
# The byte parser

`ByteParser` of `utils.rs`, with each index, range and sum where it could go wrong, and the loops that its
callers drive by a count. A parser that follows a reader of lists never panics, and finds what the reader
finds.
-/

namespace Vesper
open Slices ByteReader

structure ByteParser (t : Target) where
  data : Slice t
  pos : Nat

/-- What is done with a `&mut ByteParser`; after an error nobody reads on. -/
abbrev Parser (t : Target) (α : Type) := StateT (ByteParser t) (Except Fault) α

namespace ByteParser
variable {t : Target} {α β σ : Type}

def new (data : Slice t) : ByteParser t := ⟨data, 0⟩

def readU8 : Parser t UInt8 := fun p =>
  if p.data.len ≤ p.pos then .error invalid
  else do
    let v ← index .panic p.data p.pos
    let pos ← add .panic t p.pos 1
    return (v, { p with pos })

def readFixed (n : Nat) : Parser t (Vector UInt8 n) := fun p => do
  let stop ← add .panic t p.pos n
  if p.data.len < stop then .error invalid
  else
    let stop ← add .panic t p.pos n
    let arr ← copyFromSlice .panic n (← range .panic p.data p.pos stop)
    let pos ← add .panic t p.pos n
    return (arr, { p with pos })

def readU16 : Parser t UInt16 := do
  let b ← readFixed 2
  return .ofNat (beValue b.toList)

def readU32 : Parser t UInt32 := do
  let b ← readFixed 4
  return .ofNat (beValue b.toList)

def readBytes (n : Nat) : Parser t Bytes := fun p => do
  let stop ← add .panic t p.pos n
  if p.data.len < stop then .error invalid
  else
    let stop ← add .panic t p.pos n
    let v ← range .panic p.data p.pos stop
    let pos ← add .panic t p.pos n
    return (v.bytes, { p with pos })

/-- `for _ in 0..count` -/
def forCount (body : σ → Parser t σ) : Nat → σ → Parser t σ
  | 0, s => pure s
  | n + 1, s => do
    let s ← body s
    forCount body n s

/-- How many rounds of the loop begin. -/
def begun (body : σ → Parser t σ) : Nat → σ → ByteParser t → Nat
  | 0, _, _ => 0
  | n + 1, s, p =>
    match body s p with
    | .ok (s, p) => begun body n s p + 1
    | .error _ => 1

/-- What a parser makes of the whole input. -/
def run (m : Parser t α) (data : Slice t) : Except Fault α := (m (new data)).map Prod.fst

/-! ## Parsers and readers -/

/-- The position is inside the input, or at its end. -/
def InBounds (p : ByteParser t) : Prop := p.pos ≤ p.data.len

/-- What is left. -/
def rest (p : ByteParser t) : Bytes := p.data.bytes.drop p.pos

theorem length_rest (p : ByteParser t) : p.rest.length = p.data.len - p.pos := List.length_drop

/-- Inside the bounds, the parser does with the input what the reader does with the bytes left, and stays inside
the bounds. -/
def Follows (m : Parser t α) (r : Reader Fault α) : Prop :=
  ∀ p : ByteParser t, p.InBounds →
    r p.rest = .error invalid ∧ m p = .error invalid ∨
    ∃ a p', r p.rest = .ok (a, p'.rest) ∧ m p = .ok (a, p') ∧ p'.InBounds

namespace Follows
variable {m : Parser t α} {r : Reader Fault α}

theorem pure (a : α) : Follows (t := t) (pure a) (pure a) := fun p hp => .inr ⟨a, p, rfl, rfl, hp⟩

theorem throw : Follows (t := t) (throw invalid : Parser t α) (throw invalid) := fun _ _ => .inl ⟨rfl, rfl⟩

theorem bind {f : α → Parser t β} {g : α → Reader Fault β} (h : Follows m r) (hf : ∀ a, Follows (f a) (g a)) :
    Follows (m >>= f) (r >>= g) := by
  intro p hp
  change (r p.rest >>= fun q => g q.1 q.2) = _ ∧ (m p >>= fun q => f q.1 q.2) = _ ∨
    ∃ c p', (r p.rest >>= fun q => g q.1 q.2) = _ ∧ (m p >>= fun q => f q.1 q.2) = _ ∧ _
  obtain ⟨hr, hm⟩ | ⟨a, p', hr, hm, hp'⟩ := h p hp
  · rw [hr, hm]
    exact .inl ⟨rfl, rfl⟩
  · rw [hr, hm]
    exact hf a p' hp'

theorem ite {c : Prop} [Decidable c] {m' : Parser t α} {r' : Reader Fault α} (h : Follows m r)
    (h' : Follows m' r') : Follows (if c then m else m') (if c then r else r') := by
  split
  · exact h
  · exact h'

/-- A loop that puts the entries of a reader together. -/
theorem loop {body : σ → Parser t σ} {f : σ → α → σ}
    (h : ∀ s, Follows (body s) (r >>= fun a => Pure.pure (f s a))) (n : Nat) (s : σ) :
    Follows (forCount body n s) (fold r f n s) := by
  induction n generalizing s with
  | zero => exact .pure s
  | succ n ih =>
    intro p hp
    have hstep := (h s).bind (g := fold r f n) ih p hp
    rwa [bind_assoc] at hstep

theorem run (h : Follows m r) (data : Slice t) : ByteParser.run m data = (r data.bytes).map Prod.fst := by
  obtain ⟨hr, hm⟩ | ⟨a, p', hr, hm, -⟩ := h (new data) (Nat.zero_le _)
  · have hr : r data.bytes = .error invalid := hr
    rw [ByteParser.run, hm, hr]
    rfl
  · have hr : r data.bytes = .ok (a, p'.rest) := hr
    rw [ByteParser.run, hm, hr]
    rfl

end Follows

/-- Adding to a position that many bytes of the input, and no more than a `u16` counts, does not overflow. -/
theorem add_pos {p : ByteParser t} (hp : p.InBounds) {n : Nat} (hn : n < 2 ^ 31) :
    add Fault.panic t p.pos n = .ok (p.pos + n) := by
  have hlt := p.data.length_lt
  have hsum := two_pow_add t
  have hle := le_two_pow t
  have hp : p.pos ≤ p.data.bytes.length := hp
  exact add_eq (by omega)

theorem follows_readU8 : Follows (t := t) readU8 (u8 invalid) := by
  intro p hp
  unfold readU8
  by_cases hend : p.data.len ≤ p.pos
  · have hnil : p.rest = [] := List.drop_eq_nil_of_le hend
    rw [if_pos hend, hnil]
    exact .inl ⟨rfl, rfl⟩
  · have hlt : p.pos < p.data.bytes.length := Nat.lt_of_not_le hend
    have hcons : p.rest = p.data.bytes[p.pos] :: p.data.bytes.drop (p.pos + 1) := List.drop_eq_getElem_cons hlt
    rw [if_neg hend, index_eq hlt, add_pos hp (by decide), hcons]
    exact .inr ⟨_, ⟨p.data, p.pos + 1⟩, rfl, rfl, hlt⟩

theorem follows_readFixed {n : Nat} (hn : n < 2 ^ 31) : Follows (t := t) (readFixed n) (fixed invalid n) := by
  intro p hp
  have hlength := p.length_rest
  have hle : p.pos ≤ p.data.len := hp
  unfold readFixed fixed
  rw [add_pos hp hn]
  dsimp only [bind, Except.bind]
  by_cases hend : p.data.len < p.pos + n
  · rw [if_pos hend, dif_neg (by omega)]
    exact .inl ⟨rfl, rfl⟩
  · have hfits : p.pos + n ≤ p.data.bytes.length := Nat.le_of_not_lt hend
    rw [if_neg hend, dif_pos (by omega), range_eq rfl hfits]
    dsimp only
    rw [copyFromSlice_part hfits]
    refine .inr ⟨_, ⟨p.data, p.pos + n⟩, ?_, rfl, hfits⟩
    exact congrArg (fun left => Except.ok (_, left)) List.drop_drop

theorem follows_readBytes {n : Nat} (hn : n < 2 ^ 31) : Follows (t := t) (readBytes n) (bytes invalid n) := by
  intro p hp
  have hlength := p.length_rest
  have hle : p.pos ≤ p.data.len := hp
  unfold readBytes bytes
  rw [add_pos hp hn]
  dsimp only [bind, Except.bind]
  by_cases hend : p.data.len < p.pos + n
  · rw [if_pos hend, if_neg (by omega)]
    exact .inl ⟨rfl, rfl⟩
  · have hfits : p.pos + n ≤ p.data.bytes.length := Nat.le_of_not_lt hend
    rw [if_neg hend, if_pos (by omega), range_eq rfl hfits]
    refine .inr ⟨_, ⟨p.data, p.pos + n⟩, ?_, rfl, hfits⟩
    exact congrArg (fun left => Except.ok (_, left)) List.drop_drop

theorem follows_readU16 : Follows (t := t) readU16 (u16 invalid) :=
  (follows_readFixed (by decide)).bind fun _ => .pure _

theorem follows_readU32 : Follows (t := t) readU32 (u32 invalid) :=
  (follows_readFixed (by decide)).bind fun _ => .pure _

/-! ## Loops with a count from the input -/

/-- **A loop over entries** of no fewer than `k` bytes: it begins no round more than there are entries in what
is left, ends with an error in the round that finds too little, and does all its rounds only on an input that
has as many entries. -/
structure Exhaustible (body : σ → Parser t σ) (k : Nat) : Prop where
  short : ∀ n s p, p.InBounds → p.rest.length < k → 0 < n →
    forCount body n s p = .error invalid ∧ begun body n s p = 1
  begun_le : ∀ n s p, p.InBounds → begun body n s p ≤ p.rest.length / k + 1
  all : ∀ n s p s' p', p.InBounds → forCount body n s p = .ok (s', p') →
    n * k + p'.rest.length ≤ p.rest.length ∧ begun body n s p = n

theorem Follows.exhaustible {body : σ → Parser t σ} {r : Reader Fault α} {f : σ → α → σ} {size : α → Nat}
    {k : Nat} (h : ∀ s, Follows (body s) (r >>= fun a => Pure.pure (f s a))) (huses : Uses 0 r size)
    (hsize : ∀ a, k ≤ size a) (hk : 0 < k) : Exhaustible body k := by
  -- what one round does
  have hround : ∀ s p, p.InBounds → body s p = .error invalid ∨
      ∃ s' p', body s p = .ok (s', p') ∧ p'.InBounds ∧ k + p'.rest.length ≤ p.rest.length := by
    intro s p hp
    obtain ⟨-, hbody⟩ | ⟨s', p', hr, hbody, hp'⟩ := h s p hp
    · exact .inl hbody
    · obtain ⟨a, left, ha, hpure⟩ := bind_eq_ok_iff.mp hr
      obtain ⟨-, rfl⟩ := pure_eq_ok_iff.mp hpure
      have := huses _ _ _ ha
      have := hsize a
      exact .inr ⟨s', p', hbody, hp', by omega⟩
  have hsucc : ∀ n s p, forCount body (n + 1) s p = body s p >>= fun q => forCount body n q.1 q.2 :=
    fun _ _ _ => rfl
  constructor
  case short =>
    intro n s p hp hshort hn
    obtain ⟨n, rfl⟩ : ∃ m, n = m + 1 := ⟨n - 1, by omega⟩
    obtain hbody | ⟨s', p', -, -, hle⟩ := hround s p hp
    · rw [hsucc, begun, hbody]
      exact ⟨rfl, rfl⟩
    · omega
  case begun_le =>
    intro n
    induction n with
    | zero => exact fun _ _ _ => Nat.zero_le _
    | succ n ih =>
      intro s p hp
      obtain hbody | ⟨s', p', hbody, hp', hle⟩ := hround s p hp
      · rw [begun, hbody]
        exact Nat.le_add_left 1 _
      · rw [begun, hbody]
        calc begun body n s' p' + 1
          _ ≤ p'.rest.length / k + 1 + 1 := Nat.succ_le_succ (ih s' p' hp')
          _ = (p'.rest.length + k) / k + 1 := by rw [Nat.add_div_right _ hk]
          _ ≤ p.rest.length / k + 1 := Nat.succ_le_succ (Nat.div_le_div_right (by omega))
  case all =>
    intro n
    induction n with
    | zero =>
      intro s p s' p' _ hok
      cases hok
      exact ⟨by omega, rfl⟩
    | succ n ih =>
      intro s p s' p' hp hok
      rw [hsucc] at hok
      obtain hbody | ⟨s₁, p₁, hbody, hp₁, hle⟩ := hround s p hp
      · rw [hbody] at hok
        cases hok
      · rw [hbody] at hok
        obtain ⟨hrest, hbegun⟩ := ih s₁ p₁ s' p' hp₁ hok
        rw [begun, hbody, Nat.succ_mul]
        exact ⟨by omega, congrArg (· + 1) hbegun⟩

end ByteParser

end Vesper
