import Mathlib

/-!
# The addresses a webhook may not be delivered to

`is_blocked_ip` over both address families. An IPv4 address is kept as its four octets and an IPv6
address as its eight segments, as the standard library hands them out. The blocked IPv4 addresses
are the union of a list of networks (`isBlockedIpv4_iff`). An IPv6 address can carry an IPv4 address
inside it; the forms that a host or a translator on the way sends on to the IPv4 address are the
constructors of `Embedding`, and `isBlockedIpv6_address` says for each form what the filter makes of
it.
-/

set_option autoImplicit false

namespace Edda.Domain.BlockedAddresses

/-! ## IPv4 -/

/-- `std::net::Ipv4Addr`. -/
structure Ipv4Addr where
  (a b c d : BitVec 8)
deriving DecidableEq

namespace Ipv4Addr

variable (ip : Ipv4Addr)

/-- `0.0.0.0`. -/
def unspecified : Ipv4Addr := ⟨0, 0, 0, 0⟩

def isLoopback : Bool := ip.a == 127

def isLinkLocal : Bool := ip.a == 169 && ip.b == 254

def isPrivate : Bool :=
  ip.a == 10 || (ip.a == 172 && 16 ≤ ip.b && ip.b ≤ 31) || (ip.a == 192 && ip.b == 168)

def isUnspecified : Bool := ip == unspecified

def isMulticast : Bool := 224 ≤ ip.a && ip.a ≤ 239

def isBroadcast : Bool := ip == ⟨255, 255, 255, 255⟩

def isDocumentation : Bool :=
  (ip.a == 192 && ip.b == 0 && ip.c == 2) || (ip.a == 198 && ip.b == 51 && ip.c == 100) ||
    (ip.a == 203 && ip.b == 0 && ip.c == 113)

/-- The address as one number, the first octet in front. -/
def toNat : Nat := ((ip.a.toNat * 256 + ip.b.toNat) * 256 + ip.c.toNat) * 256 + ip.d.toNat

theorem ext_toNat {ip other : Ipv4Addr} (ha : ip.a.toNat = other.a.toNat)
    (hb : ip.b.toNat = other.b.toNat) (hc : ip.c.toNat = other.c.toNat)
    (hd : ip.d.toNat = other.d.toNat) : ip = other := by
  cases ip
  cases other
  simp only [mk.injEq]
  exact ⟨BitVec.eq_of_toNat_eq ha, BitVec.eq_of_toNat_eq hb, BitVec.eq_of_toNat_eq hc,
    BitVec.eq_of_toNat_eq hd⟩

end Ipv4Addr

/-- `is_blocked_ipv4`. -/
def isBlockedIpv4 (ip : Ipv4Addr) : Bool :=
  if ip.isLoopback || ip.isLinkLocal || ip.isPrivate || ip.isUnspecified || ip.isMulticast ||
      ip.isBroadcast || ip.isDocumentation then
    true
  -- Carrier-grade NAT.
  else if ip.a == 100 && (ip.b &&& 0b11000000) == 0b01000000 then
    true
  -- Protocol assignments, benchmarking and the reserved addresses.
  else if ip.a == 192 && ip.b == 0 && ip.c == 0 then
    true
  else if ip.a == 198 && (ip.b == 18 || ip.b == 19) then
    true
  else
    240 ≤ ip.a

/-! ## Blocked networks -/

/-- A network: a base address and the number of leading bits that are fixed. -/
structure Ipv4Net where
  base : Ipv4Addr
  bits : Nat

/-- The network has the address: the leading bits agree. -/
def Ipv4Net.Has (net : Ipv4Net) (ip : Ipv4Addr) : Prop :=
  ip.toNat / 2 ^ (32 - net.bits) = net.base.toNat / 2 ^ (32 - net.bits)

/-- The networks the filter refuses. -/
def blockedNets : List Ipv4Net :=
  [⟨⟨127, 0, 0, 0⟩, 8⟩, ⟨⟨169, 254, 0, 0⟩, 16⟩, ⟨⟨10, 0, 0, 0⟩, 8⟩, ⟨⟨172, 16, 0, 0⟩, 12⟩,
    ⟨⟨192, 168, 0, 0⟩, 16⟩, ⟨.unspecified, 32⟩, ⟨⟨224, 0, 0, 0⟩, 4⟩, ⟨⟨192, 0, 2, 0⟩, 24⟩,
    ⟨⟨198, 51, 100, 0⟩, 24⟩, ⟨⟨203, 0, 113, 0⟩, 24⟩, ⟨⟨100, 64, 0, 0⟩, 10⟩, ⟨⟨192, 0, 0, 0⟩, 24⟩,
    ⟨⟨198, 18, 0, 0⟩, 15⟩, ⟨⟨240, 0, 0, 0⟩, 4⟩]

section Nets

variable (ip : Ipv4Addr)

theorem isLoopback_iff : ip.isLoopback = true ↔ Ipv4Net.Has ⟨⟨127, 0, 0, 0⟩, 8⟩ ip := by
  simp [Ipv4Addr.isLoopback, ← BitVec.toNat_inj, Ipv4Net.Has, Ipv4Addr.toNat]
  omega

theorem isLinkLocal_iff : ip.isLinkLocal = true ↔ Ipv4Net.Has ⟨⟨169, 254, 0, 0⟩, 16⟩ ip := by
  simp [Ipv4Addr.isLinkLocal, ← BitVec.toNat_inj, Ipv4Net.Has, Ipv4Addr.toNat]
  omega

theorem isPrivate_iff : ip.isPrivate = true ↔ Ipv4Net.Has ⟨⟨10, 0, 0, 0⟩, 8⟩ ip ∨
    Ipv4Net.Has ⟨⟨172, 16, 0, 0⟩, 12⟩ ip ∨ Ipv4Net.Has ⟨⟨192, 168, 0, 0⟩, 16⟩ ip := by
  simp [Ipv4Addr.isPrivate, ← BitVec.toNat_inj, BitVec.le_def, Ipv4Net.Has, Ipv4Addr.toNat]
  omega

theorem isUnspecified_iff : ip.isUnspecified = true ↔ Ipv4Net.Has ⟨.unspecified, 32⟩ ip := by
  obtain ⟨a, b, c, d⟩ := ip
  simp [Ipv4Addr.isUnspecified, Ipv4Addr.unspecified, ← BitVec.toNat_inj, Ipv4Net.Has,
    Ipv4Addr.toNat]
  omega

theorem isMulticast_iff : ip.isMulticast = true ↔ Ipv4Net.Has ⟨⟨224, 0, 0, 0⟩, 4⟩ ip := by
  simp [Ipv4Addr.isMulticast, BitVec.le_def, Ipv4Net.Has, Ipv4Addr.toNat]
  omega

theorem isDocumentation_iff : ip.isDocumentation = true ↔
    Ipv4Net.Has ⟨⟨192, 0, 2, 0⟩, 24⟩ ip ∨ Ipv4Net.Has ⟨⟨198, 51, 100, 0⟩, 24⟩ ip ∨
      Ipv4Net.Has ⟨⟨203, 0, 113, 0⟩, 24⟩ ip := by
  simp [Ipv4Addr.isDocumentation, ← BitVec.toNat_inj, Ipv4Net.Has, Ipv4Addr.toNat]
  omega

/-- The mask keeps two bits, so that it asks for a quarter of the octets. -/
theorem mask_eq_iff (octet : BitVec 8) :
    (octet &&& 0b11000000) = 0b01000000 ↔ 64 ≤ octet.toNat ∧ octet.toNat ≤ 127 := by
  revert octet
  decide +kernel

theorem isShared_iff : ip.a = 100 ∧ (ip.b &&& 0b11000000) = 0b01000000 ↔
    Ipv4Net.Has ⟨⟨100, 64, 0, 0⟩, 10⟩ ip := by
  rw [mask_eq_iff]
  simp [← BitVec.toNat_inj, Ipv4Net.Has, Ipv4Addr.toNat]
  omega

theorem isAssignment_iff : (ip.a = 192 ∧ ip.b = 0) ∧ ip.c = 0 ↔
    Ipv4Net.Has ⟨⟨192, 0, 0, 0⟩, 24⟩ ip := by
  simp [← BitVec.toNat_inj, Ipv4Net.Has, Ipv4Addr.toNat]
  omega

theorem isBenchmarking_iff : ip.a = 198 ∧ (ip.b = 18 ∨ ip.b = 19) ↔
    Ipv4Net.Has ⟨⟨198, 18, 0, 0⟩, 15⟩ ip := by
  simp [← BitVec.toNat_inj, Ipv4Net.Has, Ipv4Addr.toNat]
  omega

/-- The broadcast address is one of the reserved addresses. -/
theorem isReserved_iff : ip.isBroadcast = true ∨ 240 ≤ ip.a ↔
    Ipv4Net.Has ⟨⟨240, 0, 0, 0⟩, 4⟩ ip := by
  obtain ⟨a, b, c, d⟩ := ip
  simp [Ipv4Addr.isBroadcast, ← BitVec.toNat_inj, BitVec.le_def, Ipv4Net.Has, Ipv4Addr.toNat]
  omega

/-- The checks of the filter, the broadcast address beside the reserved ones. -/
theorem isBlockedIpv4_eq_true : isBlockedIpv4 ip = true ↔
    ip.isLoopback = true ∨ ip.isLinkLocal = true ∨ ip.isPrivate = true ∨
      ip.isUnspecified = true ∨ ip.isMulticast = true ∨ ip.isDocumentation = true ∨
        (ip.a = 100 ∧ (ip.b &&& 0b11000000) = 0b01000000) ∨
          ((ip.a = 192 ∧ ip.b = 0) ∧ ip.c = 0) ∨ (ip.a = 198 ∧ (ip.b = 18 ∨ ip.b = 19)) ∨
            ip.isBroadcast = true ∨ 240 ≤ ip.a := by
  simp only [isBlockedIpv4, Bool.if_true_left, Bool.or_eq_true, Bool.and_eq_true, beq_iff_eq,
    decide_eq_true_eq]
  grind

/-- The filter refuses exactly the addresses of the networks. -/
theorem isBlockedIpv4_iff : isBlockedIpv4 ip = true ↔ ∃ net ∈ blockedNets, net.Has ip := by
  rw [isBlockedIpv4_eq_true, isLoopback_iff, isLinkLocal_iff, isPrivate_iff, isUnspecified_iff,
    isMulticast_iff, isDocumentation_iff, isShared_iff, isAssignment_iff, isBenchmarking_iff,
    isReserved_iff]
  simp only [blockedNets, List.mem_cons, List.not_mem_nil, or_false, exists_eq_or_imp,
    exists_eq_left, or_assoc]

end Nets

/-! ## IPv6 -/

/-- `std::net::Ipv6Addr`, by its segments. -/
structure Ipv6Addr where
  (s0 s1 s2 s3 s4 s5 s6 s7 : BitVec 16)
deriving DecidableEq

namespace Ipv6Addr

variable (ip : Ipv6Addr)

def isLoopback : Bool := ip == ⟨0, 0, 0, 0, 0, 0, 0, 1⟩

def isUnspecified : Bool := ip == ⟨0, 0, 0, 0, 0, 0, 0, 0⟩

def isMulticast : Bool := (ip.s0 &&& 0xff00) == 0xff00

/-- `to_ipv4_mapped`: the IPv4 address behind `::ffff:0:0/96`. -/
def toIpv4Mapped : Option Ipv4Addr :=
  if ip.s0 = 0 ∧ ip.s1 = 0 ∧ ip.s2 = 0 ∧ ip.s3 = 0 ∧ ip.s4 = 0 ∧ ip.s5 = 0xffff then
    some ⟨ip.s6.extractLsb' 8 8, ip.s6.extractLsb' 0 8, ip.s7.extractLsb' 8 8,
      ip.s7.extractLsb' 0 8⟩
  else
    none

end Ipv6Addr

/-- `is_blocked_ipv6`. -/
def isBlockedIpv6 (ip : Ipv6Addr) : Bool :=
  if ip.isLoopback || ip.isUnspecified || ip.isMulticast then
    true
  else
    match ip.toIpv4Mapped with
    | some v4 => isBlockedIpv4 v4
    | none => (ip.s0 &&& 0xffc0) == 0xfe80 || (ip.s0 &&& 0xfe00) == 0xfc00

/-- `std::net::IpAddr`. -/
inductive IpAddr where
  | v4 (ip : Ipv4Addr)
  | v6 (ip : Ipv6Addr)
deriving DecidableEq

/-- `is_blocked_ip`. -/
def isBlockedIp : IpAddr → Bool
  | .v4 v4 => isBlockedIpv4 v4
  | .v6 v6 => isBlockedIpv6 v6

/-! ## IPv4 addresses inside IPv6 addresses -/

/-- The forms of an IPv6 address that stand for an IPv4 address: IPv4-mapped `::ffff:0:0/96`,
IPv4-compatible `::/96`, the translation network `64:ff9b::/96`, and 6to4 `2002::/16`, where the
site behind the IPv4 address chooses the other segments. -/
inductive Embedding where
  | mapped
  | compatible
  | nat64
  | sixToFour (subnet i0 i1 i2 i3 : BitVec 16)
deriving DecidableEq

namespace Embedding

/-- The first two octets as a segment. -/
def upper (ip : Ipv4Addr) : BitVec 16 := ip.a ++ ip.b

/-- The last two octets as a segment. -/
def lower (ip : Ipv4Addr) : BitVec 16 := ip.c ++ ip.d

/-- The IPv6 address that stands for an IPv4 address. -/
def address : Embedding → Ipv4Addr → Ipv6Addr
  | mapped, ip => ⟨0, 0, 0, 0, 0, 0xffff, upper ip, lower ip⟩
  | compatible, ip => ⟨0, 0, 0, 0, 0, 0, upper ip, lower ip⟩
  | nat64, ip => ⟨0x64, 0xff9b, 0, 0, 0, 0, upper ip, lower ip⟩
  | sixToFour subnet i0 i1 i2 i3, ip =>
      ⟨0x2002, upper ip, lower ip, subnet, i0, i1, i2, i3⟩

end Embedding

/-- What is sent to the address arrives at the IPv4 address. -/
def Reaches (addr : IpAddr) (ip : Ipv4Addr) : Prop :=
  addr = .v4 ip ∨ ∃ form : Embedding, addr = .v6 (form.address ip)

/-! ## What the filter makes of an embedded address -/

section Embedded

variable (ip : Ipv4Addr)

theorem toIpv4Mapped_mapped : (Embedding.mapped.address ip).toIpv4Mapped = some ip := by
  simp only [Embedding.address, Ipv6Addr.toIpv4Mapped, Embedding.upper, Embedding.lower, and_self,
    if_true]
  rw [BitVec.extractLsb'_append_eq_left, BitVec.extractLsb'_append_eq_left,
    BitVec.extractLsb'_append_eq_right, BitVec.extractLsb'_append_eq_right]

/-- A mapped address is refused as the address behind it. -/
theorem isBlockedIpv6_mapped : isBlockedIpv6 (Embedding.mapped.address ip) = isBlockedIpv4 ip := by
  have hloopback : (Embedding.mapped.address ip).isLoopback = false := by
    simp [Embedding.address, Ipv6Addr.isLoopback]
  have hunspecified : (Embedding.mapped.address ip).isUnspecified = false := by
    simp [Embedding.address, Ipv6Addr.isUnspecified]
  have hmulticast : (Embedding.mapped.address ip).isMulticast = false := by
    simp [Embedding.address, Ipv6Addr.isMulticast]
  simp only [isBlockedIpv6, hloopback, hunspecified, hmulticast, Bool.or_self,
    Bool.false_eq_true, if_false, toIpv4Mapped_mapped]

/-- Both segments are known from the octets. -/
theorem segments_eq_iff {other : Ipv4Addr} :
    Embedding.upper ip = Embedding.upper other ∧ Embedding.lower ip = Embedding.lower other ↔
      ip = other := by
  constructor
  · rintro ⟨hupper, hlower⟩
    have hmapped : Embedding.mapped.address ip = Embedding.mapped.address other := by
      simp only [Embedding.address, hupper, hlower]
    have := congrArg Ipv6Addr.toIpv4Mapped hmapped
    rw [toIpv4Mapped_mapped, toIpv4Mapped_mapped] at this
    exact Option.some.inj this
  · rintro rfl
    exact ⟨rfl, rfl⟩

/-- Of the compatible addresses, the filter refuses the unspecified and the loopback address. -/
theorem isBlockedIpv6_compatible : isBlockedIpv6 (Embedding.compatible.address ip) = true ↔
    ip = .unspecified ∨ ip = ⟨0, 0, 0, 1⟩ := by
  have hloopback : (Embedding.compatible.address ip).isLoopback = true ↔ ip = ⟨0, 0, 0, 1⟩ := by
    rw [← segments_eq_iff]
    simp [Embedding.address, Ipv6Addr.isLoopback, Embedding.upper, Embedding.lower]
  have hunspecified : (Embedding.compatible.address ip).isUnspecified = true ↔
      ip = .unspecified := by
    rw [← segments_eq_iff]
    simp [Embedding.address, Ipv6Addr.isUnspecified, Embedding.upper, Embedding.lower,
      Ipv4Addr.unspecified]
  have hmulticast : (Embedding.compatible.address ip).isMulticast = false := by
    simp [Embedding.address, Ipv6Addr.isMulticast]
  have hmapped : (Embedding.compatible.address ip).toIpv4Mapped = none := by
    simp [Embedding.address, Ipv6Addr.toIpv4Mapped]
  have hlocal : ((Embedding.compatible.address ip).s0 &&& 0xffc0) ≠ 0xfe80 ∧
      ((Embedding.compatible.address ip).s0 &&& 0xfe00) ≠ 0xfc00 := by
    simp [Embedding.address]
  simp only [isBlockedIpv6, hmulticast, hmapped, Bool.or_false, Bool.if_true_left, Bool.or_eq_true,
    hloopback, hunspecified, beq_iff_eq, hlocal, or_false, decide_eq_true_eq]
  exact or_comm

/-- No address of the translation network is refused. -/
theorem isBlockedIpv6_nat64 : isBlockedIpv6 (Embedding.nat64.address ip) = false := by
  simp [Embedding.address, isBlockedIpv6, Ipv6Addr.isLoopback, Ipv6Addr.isUnspecified,
    Ipv6Addr.isMulticast, Ipv6Addr.toIpv4Mapped]

/-- No 6to4 address is refused. -/
theorem isBlockedIpv6_sixToFour (subnet i0 i1 i2 i3 : BitVec 16) :
    isBlockedIpv6 ((Embedding.sixToFour subnet i0 i1 i2 i3).address ip) = false := by
  simp [Embedding.address, isBlockedIpv6, Ipv6Addr.isLoopback, Ipv6Addr.isUnspecified,
    Ipv6Addr.isMulticast, Ipv6Addr.toIpv4Mapped]

/-- The forms in which the filter finds a blocked address. -/
def Embedding.Recognised (form : Embedding) (ip : Ipv4Addr) : Prop :=
  form = .mapped ∨ (form = .compatible ∧ ip = .unspecified)

instance (form : Embedding) (ip : Ipv4Addr) : Decidable (form.Recognised ip) :=
  inferInstanceAs (Decidable (_ ∨ _))

/-- A blocked address is refused in exactly these forms. -/
theorem isBlockedIpv6_address (form : Embedding) (hblocked : isBlockedIpv4 ip = true) :
    isBlockedIpv6 (form.address ip) = true ↔ form.Recognised ip := by
  cases form with
  | mapped => simp [isBlockedIpv6_mapped, hblocked, Embedding.Recognised]
  | compatible =>
    rw [isBlockedIpv6_compatible]
    constructor
    · rintro (rfl | rfl)
      · exact .inr ⟨rfl, rfl⟩
      · -- `::1` is refused, but `0.0.0.1` is not
        exact absurd hblocked (by decide)
    · rintro (h | ⟨-, rfl⟩)
      · cases h
      · exact .inl rfl
  | nat64 => simp [isBlockedIpv6_nat64, Embedding.Recognised]
  | sixToFour subnet i0 i1 i2 i3 => simp [isBlockedIpv6_sixToFour, Embedding.Recognised]

end Embedded

end Edda.Domain.BlockedAddresses
