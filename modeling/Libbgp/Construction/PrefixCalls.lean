/-
The functions on single prefixes, with the buffers and results of each address family.
-/

import Libbgp.Construction.Filter
import Libbgp.Construction.Wire

namespace Libbgp

/-- `libbgp_prefix4_parse`, with the number of bytes that it consumed. -/
def prefix4Parse : Bytes → Except Fault (Prefix 32 × Nat)
  | [] => .error .badLen
  | cidr :: rest =>
    let octets := prefixOctets cidr.toNat
    if 32 < cidr.toNat then .error .invalid
    else if rest.length < octets then .error .badLen
    else
      let bytes := rest.take octets ++ List.replicate (4 - octets) 0
      .ok (⟨addrOfBytes 32 (if octets = 0 then bytes else maskLast cidr.toNat bytes), cidr.toNat⟩, 1 + octets)

/-- `libbgp_prefix4_write` into a buffer of the given size. -/
def prefix4Write (pfx : Prefix 32) (size : Nat) : Except Fault Bytes :=
  let octets := prefixOctets pfx.len
  if 32 < pfx.len then .error .badLen
  else if size < 1 + octets then .error .buffer
  else
    let bytes := addrWrite pfx.addr
    .ok (UInt8.ofNat pfx.len :: (if octets = 0 then bytes else maskLast pfx.len bytes).take octets)

/-- The byte order in which the host loads a word from memory. -/
inductive ByteOrder where
  | little
  | big

def ByteOrder.load (bytes : List Nat) : ByteOrder → Nat
  | .little => hostWord bytes
  | .big => hostWord bytes.reverse

/-- `libbgp_cidr_to_mask`: the host's word for the bytes of a table entry. -/
def ByteOrder.cidrToMask (order : ByteOrder) (cidr : Nat) : Nat :=
  if cidr > 32 then 0 else order.load (addrBytes (cidrMasksNbo.getD cidr 0))

/-- `libbgp_prefix4_includes`, which masks both addresses as words of the host. -/
def prefix4Includes (order : ByteOrder) (outer inner : Prefix 32) : Bool :=
  if 32 < outer.len || 32 < inner.len then false
  else if inner.len < outer.len then false
  else
    let mask := order.cidrToMask outer.len
    (order.load (addrBytes inner.addr) &&& mask) == (order.load (addrBytes outer.addr) &&& mask)

/-- `prefix6_mask_addr` on the 16 bytes of an address. -/
def prefix6MaskAddr (addr : Bytes) (cidr : Nat) : Bytes :=
  if cidr = 0 then List.replicate 16 0
  else
    let octets := prefixOctets cidr
    let addr := maskLast cidr addr
    if octets < 16 then addr.take octets ++ List.replicate (16 - octets) 0 else addr

/-- `libbgp_prefix6_parse`, with the number of bytes that it consumed. -/
def prefix6Parse : Bytes → Except Fault (Prefix 128 × Nat)
  | [] => .error .badLen
  | cidr :: rest =>
    let octets := prefixOctets cidr.toNat
    if 128 < cidr.toNat then .error .invalid
    else if rest.length < octets then .error .badLen
    else
      let addr := rest.take octets ++ List.replicate (16 - octets) 0
      .ok (⟨addrOfBytes 128 (if octets = 0 then addr else prefix6MaskAddr addr cidr.toNat), cidr.toNat⟩, 1 + octets)

/-- `libbgp_prefix6_write` into a buffer of the given size. -/
def prefix6Write (pfx : Prefix 128) (size : Nat) : Except Fault Bytes :=
  let octets := prefixOctets pfx.len
  if 128 < pfx.len then .error .badLen
  else if size < 1 + octets then .error .buffer
  else .ok (UInt8.ofNat pfx.len :: (prefix6MaskAddr (addrWrite pfx.addr) pfx.len).take octets)

/-- `libbgp_prefix6_includes`, which masks the bytes of both addresses. -/
def prefix6Includes (outer inner : Prefix 128) : Bool :=
  if 128 < outer.len || 128 < inner.len then false
  else if inner.len < outer.len then false
  else prefix6MaskAddr (addrWrite outer.addr) outer.len == prefix6MaskAddr (addrWrite inner.addr) outer.len

namespace Af

/-- The functions of a family by its name. -/
def prefixParse : (af : Af) → Bytes → Except Fault (Prefix af.family.width × Nat)
  | .ipv4 => prefix4Parse
  | .ipv6 => prefix6Parse

def prefixWrite : (af : Af) → Prefix af.family.width → Nat → Except Fault Bytes
  | .ipv4 => prefix4Write
  | .ipv6 => prefix6Write

def prefixIncludes (order : ByteOrder) : (af : Af) → Prefix af.family.width → Prefix af.family.width → Bool
  | .ipv4 => prefix4Includes order
  | .ipv6 => prefix6Includes

end Af

end Libbgp
