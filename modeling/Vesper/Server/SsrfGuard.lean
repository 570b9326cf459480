import Mathlib.Data.Bool.AllAny
import Vesper.Lib.IpText
import Vesper.Lib.JsNumbers

/-!
# Private addresses

`isPrivateIPv4` and `isPrivateIPv6` of `ssrf.guard.ts`, on texts of addresses. IPv4 is compared by the bits
that a mask leaves; IPv6 by the front of its text.
-/

namespace Vesper.Server.Ssrf
open IpText

/-! ## IPv4 -/

def ipv4ToInt (ip : List Char) : Int :=
  Js.ushr ((ip.splitOn '.').foldl (fun acc octet => Js.or (Js.shl acc 8) ((Js.parseInt octet 10).getD 0)) 0) 0

structure CidrRange where
  base : Int
  mask : Int
  deriving DecidableEq

/-- A length that is no number shifts by nothing. -/
def cidrToRange (cidr : List Char) : CidrRange :=
  let parts := cidr.splitOn '/'
  let base := ipv4ToInt (parts.getD 0 [])
  let mask := match Js.parseInt (parts.getD 1 []) 10 with
    | some 0 => 0
    | some bits => Js.ushr (Js.shl (Js.not 0) (32 - bits)) 0
    | none => Js.ushr (Js.not 0) 0
  { base := Js.and base mask, mask }

/-- The test of `isPrivateIPv4`, for any ranges. -/
def inRanges (ranges : List CidrRange) (ip : List Char) : Bool :=
  let int := ipv4ToInt ip
  ranges.any fun range => Js.and int range.mask == range.base

def BLOCKED_IPV4_CIDRS : List CidrRange :=
  ["0.0.0.0/8", "10.0.0.0/8", "100.64.0.0/10", "127.0.0.0/8", "169.254.0.0/16", "172.16.0.0/12", "192.0.0.0/24",
    "192.0.2.0/24", "192.168.0.0/16", "198.18.0.0/15", "198.51.100.0/24", "203.0.113.0/24", "240.0.0.0/4"].map
    fun cidr => cidrToRange cidr.toList

def isPrivateIPv4 (ip : List Char) : Bool := inRanges BLOCKED_IPV4_CIDRS ip

/-! ## IPv6 -/

/-- `net.isIPv4`: four decimal numbers below 256, without leading zeros. -/
def isIPv4 (s : List Char) : Bool :=
  match s.splitOn '.' with
  | [a, b, c, d] => [a, b, c, d].all fun octet => (List.range 256).any fun n => octet == Nat.toDigits 10 n
  | _ => false

/-- `toLowerCase`; what it makes of characters beyond ASCII is left open. -/
def toLowerCase (beyond : Char → List Char) (s : List Char) : List Char :=
  s.flatMap fun c => if c.toNat < 128 then [c.toLower] else beyond c

/-- `/^f[cd]/i` -/
def startsFcFd : List Char → Bool
  | f :: c :: _ => f.toLower == 'f' && ['c', 'd'].contains c.toLower
  | _ => false

/-- `/^fe[89ab]/i` -/
def startsFe8b : List Char → Bool
  | f :: e :: c :: _ => f.toLower == 'f' && e.toLower == 'e' && ['8', '9', 'a', 'b'].contains c.toLower
  | _ => false

/-- `[0-9a-f]{1,4}` -/
def isHexGroup (s : List Char) : Bool :=
  1 ≤ s.length && s.length ≤ 4 && s.all fun c => "0123456789abcdef".toList.contains c

/-- `/^([0-9a-f]{1,4}):([0-9a-f]{1,4})$/` -/
def hexMatch (s : List Char) : Option (List Char × List Char) :=
  match s.splitOn ':' with
  | [a, b] => if isHexGroup a && isHexGroup b then some (a, b) else none
  | _ => none

/-- A number that `parseInt` returned, as text. -/
def numberText : Option Nat → List Char
  | some n => Nat.toDigits 10 n
  | none => "NaN".toList

def padStart4 (s : List Char) : List Char := List.replicate (4 - s.length) '0' ++ s

/-- The two groups after `::ffff:` as a dotted address. -/
def reconstructed (a b : List Char) : List Char :=
  let a : Int := (Js.parseInt a 16).getD 0
  let b : Int := (Js.parseInt b 16).getD 0
  ['.'].intercalate <| [Js.and (Js.shr a 8) 0xff, Js.and a 0xff, Js.and (Js.shr b 8) 0xff, Js.and b 0xff].map
    fun n => Nat.toDigits 10 n.toNat

/-- Eight hexadecimal digits as a dotted address. -/
def fromHex (hex : List Char) : List Char :=
  ['.'].intercalate <| [(0, 2), (2, 4), (4, 6), (6, 8)].map fun (i, j) =>
    numberText (Js.parseInt ((hex.take j).drop i) 16)

/-- The tests of `isPrivateIPv6`, on a text without zone. -/
def isPrivateNormalized (normalized : List Char) : Bool :=
  if normalized = "::1".toList ∨ normalized = "::".toList then true
  else if startsFcFd normalized then true
  else if startsFe8b normalized then true
  else if "::ffff:".toList.isPrefixOf normalized then
    let v4part := normalized.drop 7
    if isIPv4 v4part then isPrivateIPv4 v4part
    else match hexMatch v4part with
      | some (a, b) => isPrivateIPv4 (reconstructed a b)
      | none => true
  else if "64:ff9b::".toList.isPrefixOf normalized then true
  else if "2002:".toList.isPrefixOf normalized then
    let parts := normalized.splitOn ':'
    if 3 ≤ parts.length then
      let hex := padStart4 (parts.getD 1 []) ++ padStart4 (parts.getD 2 [])
      if hex.length = 8 then isPrivateIPv4 (fromHex hex) else false
    else false
  else false

def isPrivateIPv6 (beyond : Char → List Char) (ip : List Char) : Bool :=
  isPrivateNormalized (((toLowerCase beyond ip).splitOn '%').getD 0 [])

/-! ## Dotted addresses as numbers -/

/-- A further octet. -/
theorem or_shl {v n : Nat} (hn : n < 256) :
    Js.or (Js.shl (BitVec.ofNat 32 v).toInt 8) n = (BitVec.ofNat 32 (v * 256 + n)).toInt := by
  have hcount : (Js.bits 8).toNat % 32 = 8 := Js.shift_count (by decide)
  have hbits : BitVec.ofNat 32 v <<< 8 ||| BitVec.ofNat 32 n = BitVec.ofNat 32 (v * 256 + n) := by
    apply BitVec.eq_of_toNat_eq
    have hshift : v % 2 ^ 32 * 2 ^ 8 % 2 ^ 32 = (v % 2 ^ 24) <<< 8 := by
      rw [Nat.shiftLeft_eq]
      omega
    have hn' : n % 2 ^ 32 = n := Nat.mod_eq_of_lt (by omega)
    rw [BitVec.toNat_or, BitVec.toNat_shiftLeft, BitVec.toNat_ofNat, BitVec.toNat_ofNat, BitVec.toNat_ofNat,
      Nat.shiftLeft_eq, hshift, hn', ← Nat.shiftLeft_add_eq_or_of_lt (by omega), Nat.shiftLeft_eq]
    omega
  rw [Js.shl, Js.bits_toInt, hcount, Js.or, Js.bits_toInt, Js.bits_natCast, hbits]

theorem shift_zero : (Js.bits 0).toNat % 32 = 0 := rfl

theorem parseInt_decimal (n : UInt8) : Js.parseInt (decimal n) 10 = some n.toNat :=
  Js.parseInt_toDigits (by decide) (by decide)

theorem decimal_ne {c : Char} (hc : c ∉ "0123456789".toList) (n : UInt8) : c ∉ decimal n :=
  fun h => hc (mem_decimal h)

theorem splitOn_text (ip : Ipv4) :
    ip.text.splitOn '.' = [decimal ip.a, decimal ip.b, decimal ip.c, decimal ip.d] := by
  refine List.splitOn_intercalate '.' (fun l hl => ?_) (by simp)
  simp only [List.mem_cons, List.not_mem_nil, or_false] at hl
  rcases hl with rfl | rfl | rfl | rfl <;> exact decimal_ne (by decide) _

theorem not_mem_text {c : Char} (hdigit : c ∉ "0123456789".toList) (hdot : c ≠ '.') (ip : Ipv4) : c ∉ ip.text := by
  have h := decimal_ne hdigit
  simp [Ipv4.text, List.intercalate_cons_cons, h, hdot]

theorem value_lt (ip : Ipv4) : ip.value < 2 ^ 32 := by
  have ha := ip.a.toNat_lt
  have hb := ip.b.toNat_lt
  have hc := ip.c.toNat_lt
  have hd := ip.d.toNat_lt
  unfold Ipv4.value
  omega

theorem ipv4ToInt_text (ip : Ipv4) : ipv4ToInt ip.text = ip.value := by
  have hzero : (0 : Int) = (BitVec.ofNat 32 0).toInt := rfl
  have hfold : [decimal ip.a, decimal ip.b, decimal ip.c, decimal ip.d].foldl
      (fun acc octet => Js.or (Js.shl acc 8) ((Js.parseInt octet 10).getD 0)) 0 =
        (BitVec.ofNat 32 ip.value).toInt := by
    simp only [List.foldl_cons, List.foldl_nil, parseInt_decimal, Option.getD_some]
    rw [hzero, or_shl ip.a.toNat_lt, or_shl ip.b.toNat_lt, or_shl ip.c.toNat_lt, or_shl ip.d.toNat_lt,
      Nat.zero_mul, Nat.zero_add]
    rfl
  rw [ipv4ToInt, splitOn_text, hfold, Js.ushr, Js.bits_toInt, shift_zero, BitVec.ushiftRight_zero,
    BitVec.toNat_ofNat, Nat.mod_eq_of_lt (value_lt ip)]

/-! ## Ranges -/

/-- An address and a number of leading bits. -/
structure Cidr where
  ip : Ipv4
  bits : Nat
  le : bits ≤ 32
  deriving DecidableEq

def Cidr.text (cidr : Cidr) : List Char := cidr.ip.text ++ '/' :: Nat.toDigits 10 cidr.bits

/-- The leading bits of the two are equal. -/
def Cidr.Has (cidr : Cidr) (ip : Ipv4) : Prop :=
  ip.value / 2 ^ (32 - cidr.bits) = cidr.ip.value / 2 ^ (32 - cidr.bits)

instance (cidr : Cidr) (ip : Ipv4) : Decidable (cidr.Has ip) := inferInstanceAs (Decidable (_ = _))

/-- As many ones as the prefix is long. -/
def Cidr.mask (cidr : Cidr) : BitVec 32 := BitVec.allOnes 32 <<< (32 - cidr.bits)

theorem mask_eq {n : Nat} (h : n ≤ 32) : (match some n with
    | some 0 => 0
    | some bits => Js.ushr (Js.shl (Js.not 0) (32 - bits)) 0
    | none => Js.ushr (Js.not 0) 0) = ((BitVec.allOnes 32 <<< (32 - n)).toNat : Int) := by
  cases n with
  | zero => rfl
  | succ n =>
    have hones : Js.bits (Js.not 0) = BitVec.allOnes 32 := rfl
    have hcount : (32 : Int) - ((n + 1 : Nat) : Int) = ((32 - (n + 1) : Nat) : Int) := by omega
    simp only [hcount]
    rw [Js.ushr, Js.shl, hones, Js.shift_count (by omega), Js.bits_toInt, shift_zero, BitVec.ushiftRight_zero]

theorem cidrToRange_text (cidr : Cidr) : cidrToRange cidr.text =
    ⟨(BitVec.ofNat 32 cidr.ip.value &&& cidr.mask).toInt, cidr.mask.toNat⟩ := by
  have hslash : '/' ∉ Nat.toDigits 10 cidr.bits := fun h => by
    obtain ⟨d, hd, heq⟩ := mem_toDigits (by decide) h
    have hall : ∀ d : Fin 10, '/' ≠ Nat.digitChar d := by decide
    exact hall ⟨d, hd⟩ heq
  have hsplit : cidr.text.splitOn '/' = [cidr.ip.text, Nat.toDigits 10 cidr.bits] := by
    rw [Cidr.text, List.splitOn_append_cons_self_of_not_mem (not_mem_text (by decide) (by decide) _),
      List.splitOn_eq_singleton hslash]
  have hparse : Js.parseInt (Nat.toDigits 10 cidr.bits) 10 = some cidr.bits :=
    Js.parseInt_toDigits (by decide) (by decide)
  rw [cidrToRange, hsplit]
  simp only [List.getD_cons_zero, List.getD_cons_succ, hparse, ipv4ToInt_text, mask_eq cidr.le]
  rw [Js.and, Js.bits_natCast, Js.bits_toNat, Cidr.mask]

/-- **The masks compare the leading bits**, whatever the sign of what they leave. -/
theorem inRanges_iff {cidrs : List Cidr} {ip : Ipv4} :
    inRanges (cidrs.map fun cidr => cidrToRange cidr.text) ip.text = true ↔ ∃ cidr ∈ cidrs, cidr.Has ip := by
  have hrange : ∀ cidr : Cidr, Js.and (ipv4ToInt ip.text) (cidrToRange cidr.text).mask =
      (cidrToRange cidr.text).base ↔ cidr.Has ip := by
    intro cidr
    rw [cidrToRange_text, ipv4ToInt_text, Js.and, Js.bits_natCast, Js.bits_toNat, BitVec.toInt_inj, Cidr.mask,
      Js.and_mask_inj, Js.ushiftRight_inj, BitVec.toNat_ofNat, BitVec.toNat_ofNat,
      Nat.mod_eq_of_lt (value_lt _), Nat.mod_eq_of_lt (value_lt _), Cidr.Has]
  rw [inRanges, List.any_map, List.any_eq_true]
  refine exists_congr fun cidr => and_congr_right fun _ => ?_
  rw [Function.comp_apply, beq_iff_eq]
  exact hrange cidr

/-- `BLOCKED_IPV4_CIDRS`, as numbers. -/
def blocked : List Cidr :=
  [⟨⟨0, 0, 0, 0⟩, 8, by decide⟩, ⟨⟨10, 0, 0, 0⟩, 8, by decide⟩, ⟨⟨100, 64, 0, 0⟩, 10, by decide⟩,
    ⟨⟨127, 0, 0, 0⟩, 8, by decide⟩, ⟨⟨169, 254, 0, 0⟩, 16, by decide⟩, ⟨⟨172, 16, 0, 0⟩, 12, by decide⟩,
    ⟨⟨192, 0, 0, 0⟩, 24, by decide⟩, ⟨⟨192, 0, 2, 0⟩, 24, by decide⟩, ⟨⟨192, 168, 0, 0⟩, 16, by decide⟩,
    ⟨⟨198, 18, 0, 0⟩, 15, by decide⟩, ⟨⟨198, 51, 100, 0⟩, 24, by decide⟩, ⟨⟨203, 0, 113, 0⟩, 24, by decide⟩,
    ⟨⟨240, 0, 0, 0⟩, 4, by decide⟩]

def Blocked (ip : Ipv4) : Prop := ∃ cidr ∈ blocked, cidr.Has ip

theorem isPrivateIPv4_iff {ip : Ipv4} : isPrivateIPv4 ip.text = true ↔ Blocked ip := by
  have hblocked : BLOCKED_IPV4_CIDRS = blocked.map fun cidr => cidrToRange cidr.text := rfl
  rw [isPrivateIPv4, hblocked, inRanges_iff, Blocked]

/-! ## IPv6 -/

variable {beyond : Char → List Char} {ip : Ipv6} {t zone : List Char}

/-- An address, with a zone or without, is normalised to itself. -/
theorem normalized_eq (ht : ∀ c ∈ t, c ∈ alphabet) (hzone : zone = [] ∨ zone.head? = some '%') :
    ((toLowerCase beyond (t ++ zone)).splitOn '%').getD 0 [] = t := by
  have hlower : ∀ c ∈ alphabet, (if c.toNat < 128 then [c.toLower] else beyond c) = [c] := by
    intro c hc
    have hall : ∀ c ∈ alphabet, c.toNat < 128 ∧ c.toLower = c :=
      List.all_iff_forall_prop.mp (by decide)
    rw [if_pos (hall c hc).1, (hall c hc).2]
  have hsame : toLowerCase beyond t = t := by
    rw [toLowerCase, List.flatMap_congr fun c hc => hlower c (ht c hc), List.flatMap_singleton']
  have hpercent : '%' ∉ t := fun h => absurd (ht _ h) (by decide)
  rw [toLowerCase, List.flatMap_append, ← toLowerCase, hsame]
  cases zone with
  | nil =>
    rw [List.flatMap_nil, List.append_nil, List.splitOn_eq_singleton hpercent]
    rfl
  | cons c zone =>
    obtain rfl : c = '%' := by simpa using hzone
    have hfirst : (if ('%' : Char).toNat < 128 then [('%' : Char).toLower] else beyond '%') = ['%'] := rfl
    rw [List.flatMap_cons, hfirst, List.singleton_append, List.splitOn_append_cons_self_of_not_mem hpercent]
    rfl

theorem isPrivateIPv6_eq (ht : t = ip.text ∨ t = ip.ntop) (hzone : zone = [] ∨ zone.head? = some '%') :
    isPrivateIPv6 beyond (t ++ zone) = isPrivateNormalized t := by
  rw [isPrivateIPv6, normalized_eq _ hzone]
  rcases ht with rfl | rfl
  · exact fun c => mem_text
  · exact fun c => mem_ntop

theorem isPrivate_unique_local {rest : List Char} {g : UInt16} (h : g.toNat / 2 ^ 9 = 0xfc00 / 2 ^ 9) :
    isPrivateNormalized (hex g ++ rest) = true := by
  have hlt := g.toNat_lt
  have hfirst : g.toNat / 4096 = 15 := by omega
  have hsecond : g.toNat / 256 % 16 = 12 ∨ g.toNat / 256 % 16 = 13 := by omega
  rw [hex_of_le (by omega), hfirst]
  rcases hsecond with hsecond | hsecond <;> rw [hsecond] <;> rfl

theorem isPrivate_link_local {rest : List Char} {g : UInt16} (h : g.toNat / 2 ^ 6 = 0xfe80 / 2 ^ 6) :
    isPrivateNormalized (hex g ++ rest) = true := by
  have hlt := g.toNat_lt
  have hfirst : g.toNat / 4096 = 15 := by omega
  have hsecond : g.toNat / 256 % 16 = 14 := by omega
  have hthird : g.toNat / 16 % 16 = 8 ∨ g.toNat / 16 % 16 = 9 ∨ g.toNat / 16 % 16 = 10 ∨
    g.toNat / 16 % 16 = 11 := by omega
  rw [hex_of_le (by omega), hfirst, hsecond]
  rcases hthird with hthird | hthird | hthird | hthird <;> rw [hthird] <;> rfl

theorem isPrivate_nat64 (rest : List Char) : isPrivateNormalized ("64:ff9b::".toList ++ rest) = true := rfl

/-! ## Embedded IPv4 -/

theorem toDigits_high (g : UInt16) : Nat.toDigits 10 (g.toNat / 256) = decimal (.ofNat (g.toNat / 256)) := by
  have hlt := g.toNat_lt
  rw [decimal, UInt8.toNat_ofNat', Nat.mod_eq_of_lt (by omega)]

theorem toDigits_low (g : UInt16) : Nat.toDigits 10 (g.toNat % 256) = decimal (.ofNat g.toNat) := by
  rw [decimal, UInt8.toNat_ofNat']

theorem parseInt_hex (g : UInt16) : Js.parseInt (hex g) 16 = some g.toNat :=
  Js.parseInt_toDigits (by decide) (by decide)

/-- The four octets of two groups, by shifts and masks. -/
theorem reconstructed_hex (g h : UInt16) : reconstructed (hex g) (hex h) = (ofGroups g h).text := by
  have hlow : ∀ n : Nat, n < 2 ^ 31 → Js.and n 0xff = (n % 256 : Nat) := fun n hn => by
    simpa using Js.and_low (k := 8) hn (by decide)
  have hshift : ∀ g : UInt16, (Js.and (Js.shr g.toNat 8) 0xff).toNat = g.toNat / 256 := by
    intro g
    have hlt := g.toNat_lt
    have hshr : Js.shr g.toNat 8 = (g.toNat / 256 : Nat) := by
      simpa using Js.shr_natCast (k := 8) (by omega : g.toNat < 2 ^ 31) (by decide)
    rw [hshr, hlow _ (by omega), Int.toNat_natCast, Nat.mod_eq_of_lt (by omega)]
  have hmask : ∀ g : UInt16, (Js.and g.toNat 0xff).toNat = g.toNat % 256 := by
    intro g
    have hlt := g.toNat_lt
    rw [hlow _ (by omega), Int.toNat_natCast]
  rw [reconstructed, parseInt_hex, parseInt_hex]
  simp only [Option.getD_some, List.map_cons, List.map_nil, hshift, hmask, toDigits_high, toDigits_low]
  rfl

theorem isIPv4_text (ip : Ipv4) : isIPv4 ip.text = true := by
  have hoctet : ∀ n : UInt8, ((List.range 256).any fun k => decimal n == Nat.toDigits 10 k) = true := fun n =>
    List.any_eq_true.mpr ⟨n.toNat, List.mem_range.mpr n.toNat_lt, beq_self_eq_true _⟩
  rw [isIPv4, splitOn_text]
  simp only [List.all_cons, List.all_nil, hoctet, Bool.and_self]

theorem isHexGroup_hex (g : UInt16) : isHexGroup (hex g) = true := by
  have hpos : 1 ≤ (hex g).length := Nat.length_toDigits_pos
  rw [isHexGroup, Bool.and_eq_true, Bool.and_eq_true, decide_eq_true_eq, decide_eq_true_eq, List.all_eq_true]
  exact ⟨⟨hpos, length_hex_le g⟩, fun c hc => List.contains_iff_mem.mpr (mem_hex hc)⟩

theorem isPrivate_mapped (rest : List Char) : isPrivateNormalized ("::ffff:".toList ++ rest) =
    if isIPv4 rest then isPrivateIPv4 rest
    else match hexMatch rest with
      | some (a, b) => isPrivateIPv4 (reconstructed a b)
      | none => true := rfl

theorem isPrivate_mapped_dotted (ip : Ipv4) :
    isPrivateNormalized ("::ffff:".toList ++ ip.text) = isPrivateIPv4 ip.text := by
  rw [isPrivate_mapped, if_pos (isIPv4_text ip)]

theorem isPrivate_mapped_hex (g h : UInt16) :
    isPrivateNormalized ("::ffff:".toList ++ (hex g ++ ':' :: hex h)) = isPrivateIPv4 (ofGroups g h).text := by
  have hdot : '.' ∉ hex g ++ ':' :: hex h := by
    have hhex : ∀ g, '.' ∉ hex g := fun g hc => absurd (mem_hex hc) (by decide)
    simp [hhex]
  have hnot : isIPv4 (hex g ++ ':' :: hex h) = false := by
    rw [isIPv4, List.splitOn_eq_singleton hdot]
  have hmatch : hexMatch (hex g ++ ':' :: hex h) = some (hex g, hex h) := by
    rw [hexMatch, List.splitOn_append_cons_self_of_not_mem (colon_not_mem_hex g),
      List.splitOn_eq_singleton (colon_not_mem_hex h)]
    simp only [isHexGroup_hex, Bool.and_self, if_true]
  rw [isPrivate_mapped, hnot, hmatch, if_neg (by decide)]
  dsimp only
  rw [reconstructed_hex]

/-- The four digits of a group, leading zeros included. -/
def nibbles (g : UInt16) : List Char :=
  [Nat.digitChar (g.toNat / 4096), Nat.digitChar (g.toNat / 256 % 16), Nat.digitChar (g.toNat / 16 % 16),
    Nat.digitChar (g.toNat % 16)]

theorem padStart4_hex (g : UInt16) : padStart4 (hex g) = nibbles g := by
  have hlt := g.toNat_lt
  have h256 : g.toNat / 16 / 16 = g.toNat / 256 := Nat.div_div_eq_div_mul ..
  rcases Nat.lt_or_ge g.toNat 4096 with hsmall | hbig
  · have h0 : g.toNat / 4096 = 0 := by omega
    have hdigit : g.toNat / 256 % 16 = g.toNat / 256 := Nat.mod_eq_of_lt (by omega)
    rw [nibbles, h0, hdigit]
    rcases Nat.lt_or_ge g.toNat 256 with hsmall | hbig
    · have h1 : g.toNat / 256 = 0 := by omega
      have hdigit : g.toNat / 16 % 16 = g.toNat / 16 := Nat.mod_eq_of_lt (by omega)
      rw [h1, hdigit]
      rcases Nat.lt_or_ge g.toNat 16 with hsmall | hbig
      · have h2 : g.toNat / 16 = 0 := by omega
        rw [hex, Nat.toDigits_of_lt_base hsmall, h2, Nat.mod_eq_of_lt hsmall]
        rfl
      · rw [hex, Nat.toDigits_of_base_le (by decide) hbig, Nat.toDigits_of_lt_base (by omega)]
        rfl
    · rw [hex, Nat.toDigits_of_base_le (by decide) (by omega), Nat.toDigits_of_base_le (by decide) (by omega),
        h256, Nat.toDigits_of_lt_base (by omega)]
      rfl
  · rw [hex_of_le hbig]
    rfl

theorem padStart4_shows {p : List Char} {g : UInt16} (h : Shows p g) : padStart4 p = nibbles g := by
  rcases h with rfl | ⟨rfl, rfl⟩
  · exact padStart4_hex g
  · decide

theorem parseInt_pair {m n : Nat} (hm : m < 16) (hn : n < 16) :
    Js.parseInt [Nat.digitChar m, Nat.digitChar n] 16 = some (16 * m + n) := by
  rw [Js.parseInt_of_digits (by simp) (by simp [Js.digitValue_digitChar, hm, hn])]
  simp [Js.digitValue_digitChar, hm, hn]

theorem fromHex_nibbles (g h : UInt16) : fromHex (nibbles g ++ nibbles h) = (ofGroups g h).text := by
  have hhigh : ∀ g : UInt16, numberText (Js.parseInt [Nat.digitChar (g.toNat / 4096),
      Nat.digitChar (g.toNat / 256 % 16)] 16) = decimal (.ofNat (g.toNat / 256)) := by
    intro g
    have hlt := g.toNat_lt
    have hsum : 16 * (g.toNat / 4096) + g.toNat / 256 % 16 = g.toNat / 256 := by omega
    rw [parseInt_pair (by omega) (by omega), hsum]
    exact toDigits_high g
  have hlow : ∀ g : UInt16, numberText (Js.parseInt [Nat.digitChar (g.toNat / 16 % 16),
      Nat.digitChar (g.toNat % 16)] 16) = decimal (.ofNat g.toNat) := by
    intro g
    have hsum : 16 * (g.toNat / 16 % 16) + g.toNat % 16 = g.toNat % 256 := by omega
    rw [parseInt_pair (by omega) (by omega), hsum]
    exact toDigits_low g
  have hslices : fromHex (nibbles g ++ nibbles h) = ['.'].intercalate
      [numberText (Js.parseInt [Nat.digitChar (g.toNat / 4096), Nat.digitChar (g.toNat / 256 % 16)] 16),
        numberText (Js.parseInt [Nat.digitChar (g.toNat / 16 % 16), Nat.digitChar (g.toNat % 16)] 16),
        numberText (Js.parseInt [Nat.digitChar (h.toNat / 4096), Nat.digitChar (h.toNat / 256 % 16)] 16),
        numberText (Js.parseInt [Nat.digitChar (h.toNat / 16 % 16), Nat.digitChar (h.toNat % 16)] 16)] := rfl
  rw [hslices, hhigh, hlow, hhigh, hlow]
  rfl

/-- An address that starts with `2002:` is as private as what its next two pieces show. -/
theorem isPrivate_6to4 {p₁ p₂ : List Char} {ps : List (List Char)} {rest : List Char} {g h : UInt16}
    (hsplit : ("2002:".toList ++ rest).splitOn ':' = hex 0x2002 :: p₁ :: p₂ :: ps) (hg : Shows p₁ g)
    (hh : Shows p₂ h) :
    isPrivateNormalized ("2002:".toList ++ rest) = isPrivateIPv4 (ofGroups g h).text := by
  have hdefinition : isPrivateNormalized ("2002:".toList ++ rest) =
      let parts := ("2002:".toList ++ rest).splitOn ':'
      if 3 ≤ parts.length then
        let hex := padStart4 (parts.getD 1 []) ++ padStart4 (parts.getD 2 [])
        if hex.length = 8 then isPrivateIPv4 (fromHex hex) else false
      else false := rfl
  have hlength : (nibbles g ++ nibbles h).length = 8 := rfl
  rw [hdefinition, hsplit]
  dsimp only
  rw [if_pos (by simp), List.getD_cons_succ, List.getD_cons_zero, List.getD_cons_succ, List.getD_cons_succ,
    List.getD_cons_zero, padStart4_shows hg, padStart4_shows hh, if_pos hlength, fromHex_nibbles]

/-- `0.0.0.0/8` is blocked. -/
theorem blocked_of_zero (h : UInt16) : Blocked (ofGroups 0 h) := by
  refine ⟨⟨⟨0, 0, 0, 0⟩, 8, by decide⟩, .head _, ?_⟩
  have hc := (ofGroups 0 h).c.toNat_lt
  have hd := (ofGroups 0 h).d.toNat_lt
  have hvalue : (ofGroups 0 h).value = (ofGroups 0 h).c.toNat * 256 + (ofGroups 0 h).d.toNat := by
    simp [Ipv4.value, ofGroups]
  have hzero : (⟨0, 0, 0, 0⟩ : Ipv4).value = 0 := rfl
  rw [Cidr.Has, hvalue, hzero]
  dsimp only
  omega

/-! ## Addresses that are blocked -/

/-- The addresses that the guard is after. -/
inductive Guarded (ip : Ipv6) : Prop
  | unspecified (h : ip = #v[0, 0, 0, 0, 0, 0, 0, 0])
  | loopback (h : ip = #v[0, 0, 0, 0, 0, 0, 0, 1])
  /-- `fc00::/7` -/
  | uniqueLocal (h : (ip.get 0).toNat / 2 ^ 9 = 0xfc00 / 2 ^ 9)
  /-- `fe80::/10` -/
  | linkLocal (h : (ip.get 0).toNat / 2 ^ 6 = 0xfe80 / 2 ^ 6)
  /-- `64:ff9b::/96` -/
  | nat64 (h : ip.toList = ([0x64, 0xff9b, 0, 0, 0, 0, ip.get 6, ip.get 7] : List UInt16))
  /-- `::ffff:0:0/96` -/
  | mapped (h : ip.toList = ([0, 0, 0, 0, 0, 0xffff, ip.get 6, ip.get 7] : List UInt16))
      (hblocked : Blocked (ofGroups (ip.get 6) (ip.get 7)))
  /-- `2002::/16` -/
  | sixToFour (h : ip.get 0 = 0x2002) (hblocked : Blocked (ofGroups (ip.get 1) (ip.get 2)))

/-- The front of the text decides, where the address does not start with zero. -/
theorem isPrivate_of_front (hfront : ∀ rest, isPrivateNormalized (hex (ip.get 0) ++ rest) = true)
    (hne : ip.get 0 ≠ 0) (ht : t = ip.text ∨ t = ip.ntop) : isPrivateNormalized t = true := by
  obtain ⟨rest, hrest⟩ := Ipv6.text_cons hne
  rcases ht with rfl | rfl
  · rw [hrest]
    exact hfront _
  · rw [Ipv6.ntop_eq_text hne, hrest]
    exact hfront _

theorem isPrivate_sixToFour (h : ip.get 0 = 0x2002) (hblocked : Blocked (ofGroups (ip.get 1) (ip.get 2)))
    (ht : t = ip.text ∨ t = ip.ntop) : isPrivateNormalized t = true := by
  have hfirst : ip[0] = 0x2002 := h
  have hne : ip[0] ≠ 0 := by
    rw [hfirst]
    decide
  obtain rfl : t = ip.text := by
    rcases ht with rfl | rfl
    · rfl
    · exact Ipv6.ntop_eq_text hne
  have hsplit : ip.text.splitOn ':' = pieces ip.toList := splitOn_compressed (by rw [Ipv6.toList_eq]; simp)
  obtain ⟨p₁, p₂, ps, hpieces, hshows₁, hshows₂⟩ :=
    pieces_cons ip[1] ip[2] [ip[3], ip[4], ip[5], ip[6], ip[7]] hne
  rw [Ipv6.toList_eq, hpieces, hfirst] at hsplit
  obtain ⟨rest, hrest⟩ := Ipv6.text_cons hne
  have hhex : hex 0x2002 = ['2', '0', '0', '2'] := by decide
  have htext : ip.text = "2002:".toList ++ rest := by
    rw [hrest, hfirst, hhex]
    rfl
  rw [htext] at hsplit ⊢
  rcases hshows₂ with hshows₂ | ⟨hzero, g', hshows₂⟩
  · rw [isPrivate_6to4 hsplit hshows₁ hshows₂]
    exact isPrivateIPv4_iff.mpr hblocked
  · rw [isPrivate_6to4 hsplit hshows₁ hshows₂, hzero]
    exact isPrivateIPv4_iff.mpr (blocked_of_zero g')

theorem isPrivate_of_guarded (h : Guarded ip) (ht : t = ip.text ∨ t = ip.ntop) :
    isPrivateNormalized t = true := by
  cases h with
  | unspecified h =>
    subst h
    rcases ht with rfl | rfl <;> rfl
  | loopback h =>
    subst h
    rcases ht with rfl | rfl <;> rfl
  | uniqueLocal h =>
    refine isPrivate_of_front (fun rest => isPrivate_unique_local h) (fun hzero => ?_) ht
    rw [hzero] at h
    exact absurd h (by decide)
  | linkLocal h =>
    refine isPrivate_of_front (fun rest => isPrivate_link_local h) (fun hzero => ?_) ht
    rw [hzero] at h
    exact absurd h (by decide)
  | nat64 h =>
    have hne : ip[0] ≠ 0 := by
      rw [Ipv6.toList_eq] at h
      rw [(List.cons.inj h).1]
      decide
    obtain ⟨rest, hrest⟩ := Ipv6.text_nat64 h
    rcases ht with rfl | rfl
    · rw [hrest]
      exact isPrivate_nat64 rest
    · rw [Ipv6.ntop_eq_text hne, hrest]
      exact isPrivate_nat64 rest
  | mapped h hblocked =>
    rcases ht with rfl | rfl
    · rw [Ipv6.text_mapped h, isPrivate_mapped_hex]
      exact isPrivateIPv4_iff.mpr hblocked
    · rw [Ipv6.ntop_mapped h, isPrivate_mapped_dotted]
      exact isPrivateIPv4_iff.mpr hblocked
  | sixToFour h hblocked => exact isPrivate_sixToFour h hblocked ht

/-- **Private addresses are classified soundly**: a dotted address is in a range if and only if its leading
bits are those of the range, for ranges of every length; and every IPv6 address that the guard is after is
recognised by its text, with a zone or without. -/
theorem addresses_classified :
    (∀ (cidrs : List Cidr) (ip : Ipv4),
      inRanges (cidrs.map fun cidr => cidrToRange cidr.text) ip.text = true ↔ ∃ cidr ∈ cidrs, cidr.Has ip) ∧
    (∀ ip : Ipv4, isPrivateIPv4 ip.text = true ↔ Blocked ip) ∧
    ∀ (beyond : Char → List Char) (ip : Ipv6) (t zone : List Char), t = ip.text ∨ t = ip.ntop →
      zone = [] ∨ zone.head? = some '%' → Guarded ip → isPrivateIPv6 beyond (t ++ zone) = true := by
  refine ⟨fun _ _ => inRanges_iff, fun _ => isPrivateIPv4_iff, fun beyond ip t zone ht hzone h => ?_⟩
  rw [isPrivateIPv6_eq ht hzone]
  exact isPrivate_of_guarded h ht

/-- The cloud metadata address in an IPv4-mapped one with a zone, both ways it is printed. -/
theorem addresses_classified_sample :
    isPrivateIPv6 (fun c => [c]) "::ffff:169.254.169.254%eth0".toList = true ∧
    isPrivateIPv6 (fun c => [c]) "::ffff:a9fe:a9fe".toList = true := by
  have hguarded : Guarded #v[0, 0, 0, 0, 0, 0xffff, 0xa9fe, 0xa9fe] :=
    .mapped rfl ⟨⟨⟨169, 254, 0, 0⟩, 16, by decide⟩, by decide, by decide⟩
  constructor
  · exact addresses_classified.2.2 (fun c => [c]) _ "::ffff:169.254.169.254".toList "%eth0".toList
      (.inr (by decide)) (.inr (by decide)) hguarded
  · exact addresses_classified.2.2 (fun c => [c]) _ "::ffff:a9fe:a9fe".toList [] (.inl (by decide)) (.inl rfl)
      hguarded

end Vesper.Server.Ssrf
