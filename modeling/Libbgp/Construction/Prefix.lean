/-
Result codes, addresses, prefixes and the two address families.
-/

import Mathlib.Tactic

namespace Libbgp

/-- The result codes of the library. -/
inductive Err where
  | ok
  | generic
  | parse
  | write
  | badType
  | badLen
  | buffer
  | invalid
  | existing
  | notFound
  | nomem
  deriving DecidableEq, Repr

/-- A BGP identifier, read in network byte order. -/
abbrev RouterId := BitVec 32

/-- An address of the given width in network byte order, with a prefix length. -/
structure Prefix (width : Nat) where
  addr : BitVec width
  len : Nat
  deriving DecidableEq, Repr

/-- The byte at one position of an address in memory. -/
def addrByte {width : Nat} (addr : BitVec width) (position : Nat) : Nat :=
  addr.toNat >>> (width - 8 * (position + 1)) % 256

/-- The bytes of an address in memory order. -/
def addrBytes {width : Nat} (addr : BitVec width) : List Nat :=
  (List.range (width / 8)).map (addrByte addr)

/-- The integer that a little-endian host loads from these bytes. -/
def hostWord : List Nat → Nat
  | [] => 0
  | byte :: rest => byte + 256 * hostWord rest

/-- The finalizer of both route hash functions. -/
def hashU64Mix (x : UInt64) : UInt64 :=
  let x := x ^^^ (x >>> 33)
  let x := x * 0xff51afd7ed558ccd
  let x := x ^^^ (x >>> 33)
  let x := x * 0xc4ceb9fe1a85ec53
  x ^^^ (x >>> 33)

/-- What the IPv4 and the IPv6 route tables differ in. -/
structure AddrFamily where
  width : Nat
  cidrToMask : Nat → BitVec width
  hash : Prefix width → UInt64
  wholeBytes : 8 ∣ width
  mask_getMsbD : ∀ len ≤ width, ∀ bit < width, (cidrToMask len).getMsbD bit = decide (bit < len)

/-- The IPv4 mask table, one entry for each prefix length. -/
def cidrMasksNbo : List (BitVec 32) :=
  [0x00000000,
   0x80000000, 0xc0000000, 0xe0000000, 0xf0000000,
   0xf8000000, 0xfc000000, 0xfe000000, 0xff000000,
   0xff800000, 0xffc00000, 0xffe00000, 0xfff00000,
   0xfff80000, 0xfffc0000, 0xfffe0000, 0xffff0000,
   0xffff8000, 0xffffc000, 0xffffe000, 0xfffff000,
   0xfffff800, 0xfffffc00, 0xfffffe00, 0xffffff00,
   0xffffff80, 0xffffffc0, 0xffffffe0, 0xfffffff0,
   0xfffffff8, 0xfffffffc, 0xfffffffe, 0xffffffff]

def cidr4ToMask (cidr : Nat) : BitVec 32 :=
  if cidr > 32 then 0 else cidrMasksNbo.getD cidr 0

/-- The high bits of one byte. -/
def partialMask (bits : Nat) : Nat := 0xff <<< (8 - bits) % 256

def cidr6MaskByte (cidr position : Nat) : Nat :=
  if cidr > 128 then 0
  else if position < cidr / 8 then 0xff
  else if position = cidr / 8 ∧ cidr % 8 ≠ 0 then partialMask (cidr % 8)
  else 0

def cidr6ToMask (cidr : Nat) : BitVec 128 :=
  (List.range 16).foldl (fun mask position => mask <<< 8 ||| BitVec.ofNat 128 (cidr6MaskByte cidr position)) 0

def rib4Hash (pfx : Prefix 32) : UInt64 :=
  hashU64Mix (UInt64.ofNat (hostWord (addrBytes pfx.addr)) ^^^ (UInt64.ofNat pfx.len <<< 32))

def rib6Hash (pfx : Prefix 128) : UInt64 :=
  hashU64Mix ((addrBytes pfx.addr).foldl
    (fun h byte => (h ^^^ UInt64.ofNat byte) * 1099511628211) (UInt64.ofNat pfx.len))

theorem allOnes_shiftLeft_getMsbD {width len bit : Nat} (fits : len ≤ width) :
    (BitVec.allOnes width <<< (width - len)).getMsbD bit = decide (bit < len) := by
  rw [BitVec.getMsbD_shiftLeft, BitVec.getMsbD_allOnes]
  congr 1
  apply propext
  omega

theorem cidr4ToMask_eq : ∀ len ≤ 32, cidr4ToMask len = BitVec.allOnes 32 <<< (32 - len) := by
  decide +kernel

theorem cidr6ToMask_eq : ∀ len ≤ 128, cidr6ToMask len = BitVec.allOnes 128 <<< (128 - len) := by
  decide +kernel

/-- The family of the IPv4 route table. -/
def ipv4 : AddrFamily where
  width := 32
  cidrToMask := cidr4ToMask
  hash := rib4Hash
  wholeBytes := by decide
  mask_getMsbD len fits bit _ := by
    rw [cidr4ToMask_eq len fits]
    exact allOnes_shiftLeft_getMsbD fits

/-- The family of the IPv6 route table. -/
def ipv6 : AddrFamily where
  width := 128
  cidrToMask := cidr6ToMask
  hash := rib6Hash
  wholeBytes := by decide
  mask_getMsbD len fits bit _ := by
    rw [cidr6ToMask_eq len fits]
    exact allOnes_shiftLeft_getMsbD fits

/-- Families by name. -/
inductive Af where
  | ipv4
  | ipv6
  deriving DecidableEq, Repr

def Af.family : Af → AddrFamily
  | .ipv4 => Libbgp.ipv4
  | .ipv6 => Libbgp.ipv6

end Libbgp
