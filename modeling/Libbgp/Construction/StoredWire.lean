/-
The encoder over attributes and messages as they lie in memory: the computed lengths and the written bytes.
-/

import Libbgp.Construction.StoredAttribute
import Libbgp.Construction.Wire

namespace Libbgp

/-- `add_size` -/
def addSize (acc add : Nat) : Except Fault Nat := if sizeMax - add < acc then .error .badLen else .ok (acc + add)

/-- `pattr_default_type_code` -/
def pattrDefaultTypeCode : Option PAttrType → UInt8
  | some .origin => 1
  | some .asPath => 2
  | some .nextHop => 3
  | some .med => 4
  | some .localPref => 5
  | some .atomicAggregate => 6
  | some .aggregator => 7
  | some .community => 8
  | some .as4Path => 17
  | some .as4Aggregator => 18
  | some .mpReachIpv6 => 14
  | some .mpUnreachIpv6 => 15
  | some .unknown => 0
  | none => 0

/-- `pattr_known_flags_valid`: a kind outside the enumeration has no flags. -/
def storedFlagsValid (type : Option PAttrType) (flags : UInt8) : Bool :=
  match type with
  | some type => pattrKnownFlagsValid type flags
  | none => flags &&& 0xef == 0

/-- The loop over the prefixes of `pattr_value_len` and `update_prefixes_len`. -/
def addPrefixes {width : Nat} : Nat → List (Prefix width) → Except Fault Nat
  | len, [] => .ok len
  | len, pfx :: rest =>
    if width < pfx.len then .error .badLen
    else do
      let len ← addSize len (1 + prefixOctets pfx.len)
      addPrefixes len rest

/-- The checks of `pattr_value_len` and `update_validate_as_path_data` on a segment. -/
def StoredSegment.valid (segment : StoredSegment) : Bool :=
  1 ≤ segment.type && segment.type ≤ 2 && segment.asns.count ≤ 255 && !segment.asns.broken

/-- The loop over the segments of `pattr_value_len`. -/
def addSegments (is4b : Bool) : Nat → List StoredSegment → Except Fault Nat
  | len, [] => .ok len
  | len, segment :: rest =>
    if !segment.valid then .error .badLen
    else if (sizeMax - 2) / asnSize is4b < segment.asns.count then .error .badLen
    else do
      let len ← addSize len (2 + segment.asns.count * asnSize is4b)
      addSegments is4b len rest

namespace StoredData

/-- The switch of `pattr_value_len`. -/
def len : StoredData → Except Fault Nat
  | .origin _ => .ok 1
  | .asPath segments is4b => if segments.broken then .error .badLen else addSegments is4b 0 segments.items
  | .as4Path segments is4b =>
    if !is4b then .error .badLen
    else if segments.broken then .error .badLen
    else addSegments is4b 0 segments.items
  | .nextHop _ | .med _ | .localPref _ => .ok 4
  | .atomicAggregate => .ok 0
  | .aggregator asn _ is4b => if !is4b && 65535 < asn then .error .badLen else .ok (asnSize is4b + 4)
  | .community values =>
    if values.broken then .error .badLen
    else if sizeMax / 4 < values.count then .error .badLen
    else .ok (values.count * 4)
  | .as4Aggregator _ _ _ => .ok 8
  | .mpReachIpv6 _ _ nexthopLen nlri =>
    if nexthopLen ≠ 16 ∧ nexthopLen ≠ 32 then .error .badLen
    else if nlri.broken then .error .badLen
    else addPrefixes (5 + nexthopLen) nlri.items
  | .mpUnreachIpv6 withdrawn => if withdrawn.broken then .error .badLen else addPrefixes 3 withdrawn.items
  | .unknown value => if 65535 < value.count || value.broken then .error .badLen else .ok value.count
  | .foreign _ => .error .badLen

/-- The checks that `libbgp_pattr_wire_len` and `write_value` make on the value. -/
def writable : StoredData → Bool
  | .origin value => value ≤ 2
  | .asPath segments false | .as4Path segments false =>
    segments.items.all fun segment => segment.asns.items.all (· ≤ 65535)
  | _ => true

end StoredData

/-- `write_as_path_value` -/
def StoredSegment.write (segment : StoredSegment) (is4b : Bool) : Bytes :=
  segment.type :: UInt8.ofNat segment.asns.count ::
    segment.asns.items.flatMap fun asn => if is4b then be32 asn.toNat else be16 asn.toNat

/-- `libbgp_prefix4_write` and `libbgp_prefix6_write` -/
def prefixWriteWithin {width : Nat} (pfx : Prefix width) (room : Nat) : Except Fault Bytes :=
  if width < pfx.len then .error .badLen
  else if room < 1 + prefixOctets pfx.len then .error .buffer
  else .ok (prefixWrite pfx)

/-- The prefixes one after the other, from a position in a buffer of the given size. -/
def writePrefixes {width : Nat} (size : Nat) : Nat → List (Prefix width) → Except Fault Bytes
  | _, [] => .ok []
  | pos, pfx :: rest => do
      let first ← prefixWriteWithin pfx (size - pos)
      let more ← writePrefixes size (pos + first.length) rest
      .ok (first ++ more)

/-- `write_value` -/
def StoredData.write (data : StoredData) (valueLen : Nat) : Except Fault Bytes :=
  if !data.writable then .error .badLen
  else
    match data with
    | .origin value => .ok [value]
    | .asPath segments is4b | .as4Path segments is4b => .ok (segments.items.flatMap (·.write is4b))
    | .nextHop addr => .ok (addrWrite addr)
    | .med value | .localPref value => .ok (be32 value.toNat)
    | .atomicAggregate => .ok []
    | .aggregator asn routerId is4b => .ok ((if is4b then be32 asn.toNat else be16 asn.toNat) ++ addrWrite routerId)
    | .community values => .ok (values.items.flatMap fun value => be32 value.toNat)
    | .as4Aggregator asn routerId _ => .ok (be32 asn.toNat ++ addrWrite routerId)
    | .mpReachIpv6 global linkLocal nexthopLen nlri => do
        let tail ← writePrefixes valueLen (5 + nexthopLen) nlri.items
        .ok ([0, 2, 1, UInt8.ofNat nexthopLen] ++
          (addrWrite global ++ addrWrite linkLocal).take nexthopLen ++ [0] ++ tail)
    | .mpUnreachIpv6 withdrawn => do
        let tail ← writePrefixes valueLen 3 withdrawn.items
        .ok ([0, 2, 1] ++ tail)
    | .unknown value => .ok value.items
    | .foreign _ => .error .badLen

namespace StoredAttr

/-- `pattr_value_len` -/
def valueLen (attr : StoredAttr) : Except Fault Nat :=
  if attr.type ≠ some .unknown ∧ attr.typeCode ≠ pattrDefaultTypeCode attr.type then .error .badLen
  else if !storedFlagsValid attr.type attr.flags then .error .badLen
  else do
    let len ← attr.data.len
    if 65535 < len then .error .badLen else .ok len

def isExtended (attr : StoredAttr) (valueLen : Nat) : Bool := 255 < valueLen || attr.flags &&& 0x10 != 0

def headerLen (attr : StoredAttr) (valueLen : Nat) : Nat := if attr.isExtended valueLen then 4 else 3

/-- `libbgp_pattr_wire_len` -/
def wireLen (attr : StoredAttr) : Except Fault Nat := do
  let valueLen ← attr.valueLen
  if !attr.data.writable then .error .badLen
  else if sizeMax - attr.headerLen valueLen < valueLen then .error .badLen
  else .ok (attr.headerLen valueLen + valueLen)

/-- `write_header` -/
def writeHeader (attr : StoredAttr) (valueLen : Nat) : Bytes :=
  let flags := attr.flags &&& 0xef
  if attr.isExtended valueLen then [flags ||| 0x10, attr.typeCode] ++ be16 valueLen
  else [flags, attr.typeCode, UInt8.ofNat valueLen]

/-- `libbgp_pattr_write`: the bytes that are written, and the reported length. -/
def write (attr : StoredAttr) (size : Nat) : Except Fault (Bytes × Nat) := do
  let valueLen ← attr.valueLen
  if size < attr.headerLen valueLen + valueLen then .error .buffer
  else do
    let value ← attr.data.write valueLen
    .ok (attr.writeHeader valueLen ++ value, attr.headerLen valueLen + valueLen)

/-- The loop of `update_validate_as_path_data`: the number of AS numbers in the path. -/
def countAsns (enforceAsnWidth is4b : Bool) : Nat → List StoredSegment → Except Fault Nat
  | total, [] => .ok total
  | total, segment :: rest =>
    if !segment.valid then .error .badLen
    else if sizeMax - segment.asns.count < total then .error .badLen
    else if enforceAsnWidth && !is4b && segment.asns.items.any (65535 < ·) then .error .badLen
    else countAsns enforceAsnWidth is4b (total + segment.asns.count) rest

/-- `update_validate_as_path_data` -/
def validateAsPathData (attr : StoredAttr) (enforceAsnWidth : Bool) : Except Fault Nat :=
  match attr.data with
  | .asPath segments is4b =>
    if segments.broken then .error .badLen else countAsns enforceAsnWidth is4b 0 segments.items
  | .as4Path segments is4b =>
    if !is4b then .error .badLen
    else if segments.broken then .error .badLen
    else countAsns enforceAsnWidth is4b 0 segments.items
  | _ => .error .badLen

end StoredAttr

/-- `libbgp_update_msg_t` -/
structure StoredUpdate where
  withdrawn : Block (Prefix 32)
  attrs : StoredAttrs
  nlri : Block (Prefix 32)

/-- An attribute that `libbgp_update_validate` finds malformed. -/
def badStoredAttr : Option StoredAttr → Bool
  | none => true
  | some attr => (attr.type == some .asPath || attr.type == some .as4Path) && !(attr.validateAsPathData true).isOk

/-- The place of the first attribute whose type code comes again. -/
def firstStoredDuplicate : List (Option StoredAttr) → Option Nat
  | [] => none
  | none :: rest => (firstStoredDuplicate rest).map (· + 1)
  | some attr :: rest =>
    if rest.any fun other => other.any (·.typeCode == attr.typeCode) then some 0
    else (firstStoredDuplicate rest).map (· + 1)

/-- `update_mp_reach_has_nlri` -/
def StoredAttr.mpReachHasNlri (attr : StoredAttr) : Bool :=
  match attr.data with
  | .mpReachIpv6 _ _ _ nlri => nlri.count != 0
  | _ => false

namespace StoredUpdate

/-- `libbgp_update_validate` -/
def validate (update : StoredUpdate) : Except Fault Unit :=
  let attrs := update.attrs.items
  let has := fun type => (attrs.filterMap id).any fun attr => attr.type == some type
  let firstBad := attrs.findIdx badStoredAttr
  let duplicate := firstStoredDuplicate attrs
  if update.withdrawn.broken || update.attrs.broken || update.nlri.broken then .error .badLen
  else if duplicate.any (· < firstBad) then .error .invalid
  else if firstBad < attrs.length then .error .badLen
  else if duplicate.isSome then .error .invalid
  else if update.nlri.count != 0 && !(has .origin && has .asPath && has .nextHop) then .error .invalid
  else if (attrs.filterMap id).any (·.mpReachHasNlri) && !(has .origin && has .asPath) then .error .invalid
  else .ok ()

/-- `update_prefixes_len` -/
def prefixesLen (prefixes : Block (Prefix 32)) : Except Fault Nat :=
  if prefixes.broken then .error .badLen else addPrefixes 0 prefixes.items

/-- The loop of `update_attrs_len`. -/
def addAttrs : Nat → List (Option StoredAttr) → Except Fault Nat
  | total, [] => .ok total
  | _, none :: _ => .error .badLen
  | total, some attr :: rest => do
      let one ← attr.wireLen
      let total ← addSize total one
      addAttrs total rest

/-- `update_attrs_len` -/
def attrsLen (attrs : StoredAttrs) : Except Fault Nat :=
  if attrs.broken then .error .badLen else addAttrs 0 attrs.items

/-- The attributes one after the other, from a position in a buffer of the given size. -/
def writeAttrs (size : Nat) : Nat → List (Option StoredAttr) → Except Fault Bytes
  | _, [] => .ok []
  | _, none :: _ => .error .badLen
  | pos, some attr :: rest => do
      let (first, one) ← attr.write (size - pos)
      let more ← writeAttrs size (pos + one) rest
      .ok (first ++ more)

/-- `libbgp_update_write`: the bytes that are written, and the reported length. -/
def write (update : StoredUpdate) (size : Nat) : Except Fault (Bytes × Nat) := do
  update.validate
  let withdrawnLen ← prefixesLen update.withdrawn
  let attrLen ← attrsLen update.attrs
  let nlriLen ← prefixesLen update.nlri
  if 65535 < withdrawnLen || 65535 < attrLen || sizeMax - 4 < withdrawnLen || sizeMax - 4 - withdrawnLen < attrLen ||
      sizeMax - 4 - withdrawnLen - attrLen < nlriLen then .error .badLen
  else
    let total := 4 + withdrawnLen + attrLen + nlriLen
    if size < total then .error .buffer
    else do
      let withdrawn ← writePrefixes (total - 2) 0 update.withdrawn.items
      let attrs ← writeAttrs total (4 + withdrawn.length) update.attrs.items
      let nlri ← writePrefixes (total - (4 + withdrawn.length + attrs.length)) 0 update.nlri.items
      .ok (be16 withdrawnLen ++ withdrawn ++ be16 attrLen ++ attrs ++ nlri, total)

end StoredUpdate

end Libbgp
