/-
Path attributes and UPDATE messages as bytes.
-/

import Libbgp.Construction.Attribute

namespace Libbgp

abbrev Bytes := List UInt8

/-- The largest `size_t`. -/
def sizeMax : Nat := 2 ^ 64 - 1

/-- A result other than success. -/
abbrev Fault := { err : Err // err ≠ .ok }

def Fault.badLen : Fault := ⟨.badLen, by decide⟩
def Fault.invalid : Fault := ⟨.invalid, by decide⟩
def Fault.buffer : Fault := ⟨.buffer, by decide⟩
def Fault.existing : Fault := ⟨.existing, by decide⟩

/-- Work that asks for memory. It counts its requests, and its outcome is the one for memory that is
always granted. -/
abbrev Work := ExceptT Fault (StateM Nat)

def Work.ask (count : Nat) : Work Unit := modify (· + count)

def Work.ofExcept {A : Type} : Except Fault A → Work A
  | .ok value => pure value
  | .error fault => throw fault

/-- `bgp_put_be16` -/
def be16 (value : Nat) : Bytes := [UInt8.ofNat (value >>> 8), UInt8.ofNat value]

/-- `bgp_put_be32` -/
def be32 (value : Nat) : Bytes :=
  [UInt8.ofNat (value >>> 24), UInt8.ofNat (value >>> 16), UInt8.ofNat (value >>> 8), UInt8.ofNat value]

/-- `bgp_get_be16` and `bgp_get_be32`, for any number of bytes. -/
def readBe (bytes : Bytes) : Nat := bytes.foldl (fun value byte => value * 256 + byte.toNat) 0

/-- An address from its bytes in memory order; missing bytes are zero. -/
def addrOfBytes (width : Nat) (bytes : Bytes) : BitVec width :=
  BitVec.ofNat width (readBe (bytes ++ List.replicate (width / 8 - bytes.length) 0))

/-- The bytes that a prefix of this length takes. -/
def prefixOctets (len : Nat) : Nat := (len + 7) / 8

/-- The host bits of the last byte are cleared. -/
def maskLast (len : Nat) (octets : Bytes) : Bytes :=
  if len % 8 = 0 then octets
  else octets.modify (prefixOctets len - 1) (· &&& UInt8.ofNat (partialMask (len % 8)))

/-- `libbgp_prefix4_parse` and `libbgp_prefix6_parse`, with the bytes that are left. -/
def prefixParse (width : Nat) : Bytes → Work (Prefix width × Bytes)
  | [] => throw .badLen
  | cidr :: rest =>
    let octets := prefixOctets cidr.toNat
    if width < cidr.toNat then throw .invalid
    else if rest.length < octets then throw .badLen
    else pure (⟨addrOfBytes width (maskLast cidr.toNat (rest.take octets)), cidr.toNat⟩, rest.drop octets)

/-- `libbgp_prefix4_write` and `libbgp_prefix6_write` into a buffer that is large enough. -/
def prefixWrite {width : Nat} (pfx : Prefix width) : Bytes :=
  UInt8.ofNat pfx.len ::
    maskLast pfx.len (((addrBytes pfx.addr).take (prefixOctets pfx.len)).map UInt8.ofNat)

/-- The prefixes that fill the given bytes, in an array that doubles when it is full. Each prefix takes
a byte at least, so the number of bytes bounds the recursion. -/
def parsePrefixes (width : Nat) : Nat → (count cap : Nat) → Bytes → Work (List (Prefix width))
  | 0, _, _, _ => pure []
  | fuel + 1, count, cap, bytes =>
    if bytes.isEmpty then pure []
    else do
      let (pfx, rest) ← prefixParse width bytes
      Work.ask (if cap ≤ count then 1 else 0)
      let cap := if count < cap then cap else if cap = 0 then 8 else cap * 2
      let more ← parsePrefixes width fuel (count + 1) cap rest
      pure (pfx :: more)

/-- `update_parse_prefixes`, and the loops of the two IPv6 attributes. -/
def prefixesParse (width : Nat) (bytes : Bytes) : Work (List (Prefix width)) :=
  parsePrefixes width bytes.length 0 0 bytes

/-- The bytes of one AS number. -/
def asnSize (wide : Bool) : Nat := if wide then 4 else 2

/-- The segments of an AS path; each takes two bytes at least. -/
def parseSegments (wide : Bool) : Nat → Bytes → Except Fault (List AsPathSegment)
  | _, [] => .ok []
  | _, [_] => .error .badLen
  | 0, _ => .error .badLen
  | fuel + 1, type :: count :: rest =>
    let size := asnSize wide
    if type < 1 || 2 < type then .error .invalid
    else if count = 0 then .error .badLen
    else if rest.length < count.toNat * size then .error .badLen
    else do
      let asns := (List.range count.toNat).map fun position =>
        UInt32.ofNat (readBe ((rest.drop (position * size)).take size))
      let more ← parseSegments wide fuel (rest.drop (count.toNat * size))
      .ok (⟨type, asns⟩ :: more)

/-- `parse_as_path`: all segments share one block. -/
def parseAsPath (wide : Bool) (value : Bytes) : Work (List AsPathSegment) := do
  let segments ← Work.ofExcept (parseSegments wide value.length value)
  Work.ask (if segments.isEmpty then 0 else 1)
  pure segments

/-- `pattr_type_from_code` -/
def pattrTypeFromCode (code : UInt8) : PAttrType :=
  match code.toNat with
  | 1 => .origin
  | 2 => .asPath
  | 3 => .nextHop
  | 4 => .med
  | 5 => .localPref
  | 6 => .atomicAggregate
  | 7 => .aggregator
  | 8 => .community
  | 14 => .mpReachIpv6
  | 15 => .mpUnreachIpv6
  | 17 => .as4Path
  | 18 => .as4Aggregator
  | _ => .unknown

/-- `pattr_default_flags` -/
def pattrDefaultFlags : PAttrType → UInt8
  | .origin | .asPath | .nextHop | .localPref | .atomicAggregate => 0x40
  | .med | .mpReachIpv6 | .mpUnreachIpv6 => 0x80
  | .aggregator | .community | .as4Path | .as4Aggregator => 0xc0
  | .unknown => 0

/-- `pattr_known_flags_valid` -/
def pattrKnownFlagsValid (type : PAttrType) (flags : UInt8) : Bool :=
  let isPartial := flags &&& 0x20 != 0
  flags &&& 0x0f == 0 &&
    match type with
    | .unknown => flags &&& 0x80 != 0 && !(isPartial && flags &&& 0x40 == 0)
    | type => flags &&& 0xc0 == pattrDefaultFlags type && !(isPartial && pattrDefaultFlags type &&& 0xc0 != 0xc0)

/-- `parse_unknown` -/
def parseUnknown (code : UInt8) (value : Bytes) : Work PAttrData :=
  if undecoded : code ∉ decodedCodes then do
    Work.ask (if value.isEmpty then 0 else 1)
    pure (.unknown code value undecoded)
  else throw .invalid

/-- The attribute is for unicast IPv6 routes. -/
def isIpv6Unicast (value : Bytes) : Bool := value.take 3 == [0, 2, 1]

/-- `parse_mp_unreach_ipv6` -/
def parseMpUnreachIpv6 (code : UInt8) (value : Bytes) : Work PAttrData :=
  if value.length < 3 then throw .badLen
  else if !isIpv6Unicast value then parseUnknown code value
  else do
    let withdrawn ← prefixesParse 128 (value.drop 3)
    pure (.mpUnreachIpv6 withdrawn)

/-- `parse_mp_reach_ipv6` -/
def parseMpReachIpv6 (code : UInt8) (value : Bytes) : Work PAttrData :=
  if value.length < 5 then throw .badLen
  else if !isIpv6Unicast value then parseUnknown code value
  else
    let nexthopLen := (value.getD 3 0).toNat
    if nexthopLen ≠ 16 ∧ nexthopLen ≠ 32 then throw .invalid
    else if value.length < 5 + nexthopLen then throw .badLen
    else if value.getD (4 + nexthopLen) 0 ≠ 0 then throw .invalid
    else do
      let nexthop := addrOfBytes 128 ((value.drop 4).take 16)
      let linkLocal := if nexthopLen = 32 then addrOfBytes 128 ((value.drop 20).take 16) else 0
      let nlri ← prefixesParse 128 (value.drop (5 + nexthopLen))
      pure (.mpReachIpv6 nexthop linkLocal nexthopLen nlri)

/-- The value part of `libbgp_pattr_parse_as4`. -/
def parseValue (code : UInt8) (wide : Bool) (value : Bytes) : Work PAttrData :=
  let word := UInt32.ofNat (readBe value)
  match pattrTypeFromCode code with
  | .origin =>
    if value.length ≠ 1 then throw .badLen
    else if 2 < value.headD 0 then throw .invalid
    else pure (.origin (value.headD 0))
  | .asPath => return .asPath (← parseAsPath wide value) wide
  | .nextHop => if value.length ≠ 4 then throw .badLen else pure (.nextHop (addrOfBytes 32 value))
  | .med => if value.length ≠ 4 then throw .badLen else pure (.med word)
  | .localPref => if value.length ≠ 4 then throw .badLen else pure (.localPref word)
  | .atomicAggregate => if value.length ≠ 0 then throw .badLen else pure .atomicAggregate
  | .aggregator =>
    let size := asnSize wide
    if value.length ≠ size + 4 then throw .badLen
    else pure (.aggregator (UInt32.ofNat (readBe (value.take size))) (addrOfBytes 32 (value.drop size)) wide)
  | .community =>
    if value.length % 4 ≠ 0 then throw .badLen
    else do
      Work.ask (if value.isEmpty then 0 else 1)
      pure (.community ((List.range (value.length / 4)).map fun position =>
        UInt32.ofNat (readBe ((value.drop (position * 4)).take 4))))
  | .as4Path => return .as4Path (← parseAsPath true value) true
  | .as4Aggregator =>
    if value.length ≠ 8 then throw .badLen
    else pure (.as4Aggregator (UInt32.ofNat (readBe (value.take 4))) (addrOfBytes 32 (value.drop 4)) true)
  | .mpReachIpv6 => parseMpReachIpv6 code value
  | .mpUnreachIpv6 => parseMpUnreachIpv6 code value
  | .unknown => parseUnknown code value

/-- `libbgp_pattr_parse_as4`, with the bytes that are left. -/
def pattrParseAs4 (wide : Bool) (bytes : Bytes) : Work (PAttr × Bytes) :=
  if bytes.length < 3 then throw .badLen
  else
    let flags := bytes.getD 0 0
    let code := bytes.getD 1 0
    let extended := flags &&& 0x10 != 0
    if extended && bytes.length < 4 then throw .badLen
    else
      let headerLen := if extended then 4 else 3
      let valueLen := if extended then readBe ((bytes.drop 2).take 2) else (bytes.getD 2 0).toNat
      let body := bytes.drop headerLen
      if body.length < valueLen then throw .badLen
      else if !pattrKnownFlagsValid (pattrTypeFromCode code) flags then throw .invalid
      else do
        let data ← parseValue code wide (body.take valueLen)
        pure (⟨flags, data⟩, body.drop valueLen)

/-- A segment that the encoder accepts. -/
def segmentWritable (segment : AsPathSegment) : Bool :=
  1 ≤ segment.type && segment.type ≤ 2 && segment.asns.length ≤ 255

/-- The sum over the prefixes of an IPv6 attribute, when none is too long. -/
def prefixesLen {width : Nat} (prefixes : List (Prefix width)) : Except Fault Nat :=
  if prefixes.any (width < ·.len) then .error .badLen
  else .ok (prefixes.map fun pfx => 1 + prefixOctets pfx.len).sum

/-- The value lengths of `pattr_value_len` before the last check. -/
def kindLen (data : PAttrData) : Except Fault Nat :=
  match data with
  | .origin _ => .ok 1
  | .asPath segments is4b =>
    if segments.all segmentWritable then .ok (segments.map fun s => 2 + s.asns.length * asnSize is4b).sum
    else .error .badLen
  | .as4Path segments is4b =>
    if is4b && segments.all segmentWritable then .ok (segments.map fun s => 2 + s.asns.length * asnSize is4b).sum
    else .error .badLen
  | .nextHop _ | .med _ | .localPref _ => .ok 4
  | .atomicAggregate => .ok 0
  | .aggregator asn _ is4b => if !is4b && 65535 < asn then .error .badLen else .ok (asnSize is4b + 4)
  | .community values => .ok (values.length * 4)
  | .as4Aggregator _ _ _ => .ok 8
  | .mpReachIpv6 _ _ nexthopLen nlri =>
    if nexthopLen ≠ 16 ∧ nexthopLen ≠ 32 then .error .badLen
    else return 5 + nexthopLen + (← prefixesLen nlri)
  | .mpUnreachIpv6 withdrawn => return 3 + (← prefixesLen withdrawn)
  | .unknown _ value _ => .ok value.length

/-- `pattr_value_len`. A stored type code always fits its kind, so that check is left out. -/
def pattrValueLen (attr : PAttr) : Except Fault Nat :=
  if !pattrKnownFlagsValid attr.type attr.flags then .error .badLen
  else do
    let len ← kindLen attr.data
    if 65535 < len then .error .badLen else .ok len

/-- A value that can be written: a known origin, and AS numbers that fit their width. -/
def valueWritable (data : PAttrData) : Bool :=
  match data with
  | .origin origin => origin ≤ 2
  | .asPath segments false | .as4Path segments false => segments.all fun segment => segment.asns.all (· ≤ 65535)
  | _ => true

/-- The attribute has the long header. -/
def isExtended (attr : PAttr) (valueLen : Nat) : Bool := 255 < valueLen || attr.flags &&& 0x10 != 0

/-- The bytes before the value. -/
def headerLen (attr : PAttr) (valueLen : Nat) : Nat := if isExtended attr valueLen then 4 else 3

/-- `libbgp_pattr_wire_len` -/
def pattrWireLen (attr : PAttr) : Except Fault Nat := do
  let valueLen ← pattrValueLen attr
  if !valueWritable attr.data then .error .badLen else .ok (headerLen attr valueLen + valueLen)

/-- `write_as_path_value` -/
def writeAsPathValue (segments : List AsPathSegment) (is4b : Bool) : Bytes :=
  segments.flatMap fun segment => segment.type :: UInt8.ofNat segment.asns.length ::
    segment.asns.flatMap fun asn => if is4b then be32 asn.toNat else be16 asn.toNat

/-- An address in memory order. -/
def addrWrite {width : Nat} (addr : BitVec width) : Bytes := (addrBytes addr).map UInt8.ofNat

/-- `write_value` for a value that can be written. -/
def writeValue (data : PAttrData) : Bytes :=
  match data with
  | .origin origin => [origin]
  | .asPath segments is4b | .as4Path segments is4b => writeAsPathValue segments is4b
  | .nextHop nextHop => addrWrite nextHop
  | .med value | .localPref value => be32 value.toNat
  | .atomicAggregate => []
  | .aggregator asn routerId is4b => (if is4b then be32 asn.toNat else be16 asn.toNat) ++ addrWrite routerId
  | .community values => values.flatMap fun value => be32 value.toNat
  | .as4Aggregator asn routerId _ => be32 asn.toNat ++ addrWrite routerId
  | .mpReachIpv6 nexthop linkLocal nexthopLen nlri =>
    [0, 2, 1, UInt8.ofNat nexthopLen] ++ (addrWrite nexthop ++ addrWrite linkLocal).take nexthopLen ++ [0] ++
      nlri.flatMap prefixWrite
  | .mpUnreachIpv6 withdrawn => [0, 2, 1] ++ withdrawn.flatMap prefixWrite
  | .unknown _ value _ => value

/-- `write_header` -/
def writeHeader (attr : PAttr) (valueLen : Nat) : Bytes :=
  let flags := attr.flags &&& 0xef
  if isExtended attr valueLen then [flags ||| 0x10, attr.typeCode] ++ be16 valueLen
  else [flags, attr.typeCode, UInt8.ofNat valueLen]

/-- `libbgp_pattr_write` into a buffer of the given size. -/
def pattrWrite (attr : PAttr) (size : Nat) : Except Fault Bytes := do
  let valueLen ← pattrValueLen attr
  if size < headerLen attr valueLen + valueLen then .error .buffer
  else if !valueWritable attr.data then .error .badLen
  else .ok (writeHeader attr valueLen ++ writeValue attr.data)

/-- `update_validate_as_path_data`: the number of AS numbers in the path. -/
def validateAsPathData (attr : PAttr) (enforceAsnWidth : Bool) : Except Fault Nat :=
  match attr.data with
  | .asPath segments is4b | .as4Path segments is4b =>
    if attr.type = .as4Path ∧ is4b = false then .error .badLen
    else if segments.all fun segment => segmentWritable segment &&
        !(enforceAsnWidth && !is4b && segment.asns.any (65535 < ·)) then
      .ok (segments.map fun segment => segment.asns.length).sum
    else .error .badLen
  | _ => .error .badLen

/-- An attribute that `libbgp_update_validate` finds malformed. -/
def badAttr : Option PAttr → Bool
  | none => true
  | some attr => (attr.type == .asPath || attr.type == .as4Path) && !(validateAsPathData attr true).isOk

/-- The place of the first attribute whose type code comes again. -/
def firstDuplicate : List (Option PAttr) → Option Nat
  | [] => none
  | none :: rest => (firstDuplicate rest).map (· + 1)
  | some attr :: rest =>
    if rest.any fun other => other.any (·.typeCode == attr.typeCode) then some 0
    else (firstDuplicate rest).map (· + 1)

/-- `libbgp_update_validate`: whichever of the two comes first decides. -/
def updateValidate (update : UpdateMsg) : Except Fault Unit :=
  let has := fun type => (update.findAttr type).isSome
  let firstBad := update.attrs.findIdx badAttr
  let duplicate := firstDuplicate update.attrs
  let mpReach := (update.attrs.filterMap id).any fun attr =>
    match attr.data with
    | .mpReachIpv6 _ _ _ nlri => !nlri.isEmpty
    | _ => false
  if duplicate.any (· < firstBad) then .error .invalid
  else if firstBad < update.attrs.length then .error .badLen
  else if duplicate.isSome then .error .invalid
  else if !update.nlri.isEmpty && !(has .origin && has .asPath && has .nextHop) then .error .invalid
  else if mpReach && !(has .origin && has .asPath) then .error .invalid
  else .ok ()

/-- `update_attrs_len` -/
def attrsLen : List (Option PAttr) → Except Fault Nat
  | [] => .ok 0
  | none :: _ => .error .badLen
  | some attr :: rest => do
      let one ← pattrWireLen attr
      let more ← attrsLen rest
      .ok (one + more)

/-- The attributes one after the other, in the room that is left. -/
def attrsWrite : List (Option PAttr) → Nat → Except Fault Bytes
  | [], _ => .ok []
  | none :: _, _ => .error .badLen
  | some attr :: rest, size => do
      let first ← pattrWrite attr size
      let more ← attrsWrite rest (size - first.length)
      .ok (first ++ more)

/-- `libbgp_update_write` into a buffer of the given size. -/
def updateWrite (update : UpdateMsg) (size : Nat) : Except Fault Bytes := do
  updateValidate update
  let withdrawnLen ← prefixesLen update.withdrawn
  let attrLen ← attrsLen update.attrs
  let nlriLen ← prefixesLen update.nlri
  if 65535 < withdrawnLen || 65535 < attrLen then .error .badLen
  else if size < 4 + withdrawnLen + attrLen + nlriLen then .error .buffer
  else
    let attrs ← attrsWrite update.attrs (attrLen + nlriLen)
    .ok (be16 withdrawnLen ++ update.withdrawn.flatMap prefixWrite ++ be16 attrLen ++ attrs ++
      update.nlri.flatMap prefixWrite)

def bgpMaxPacketLen : Nat := 4096
def bgpHeaderLen : Nat := 19

/-- `libbgp_packet_write` for an UPDATE, into the buffer of `fsm_send_packet`. -/
def updatePacketWrite (update : UpdateMsg) : Except Fault Bytes := do
  let body ← updateWrite update (bgpMaxPacketLen - bgpHeaderLen)
  .ok (List.replicate 16 0xff ++ be16 (bgpHeaderLen + body.length) ++ [2] ++ body)

/-- `libbgp_update_add_attr` for a new attribute of a parsed message; the array grows as those of
prefixes do. -/
def parseAttrs (wide : Bool) : Nat → (cap : Nat) → List (Option PAttr) → Bytes → Work (List (Option PAttr))
  | 0, _, attrs, _ => pure attrs
  | fuel + 1, cap, attrs, bytes =>
    if bytes.isEmpty then pure attrs
    else do
      Work.ask 1
      let (attr, rest) ← pattrParseAs4 wide bytes
      if attrs.any fun other => other.any (·.typeCode == attr.typeCode) then throw .existing
      else do
        Work.ask (if cap ≤ attrs.length then 1 else 0)
        let cap := if attrs.length < cap then cap else if cap = 0 then 8 else cap * 2
        parseAttrs wide fuel cap (attrs ++ [some attr]) rest

/-- `libbgp_update_parse_as4` -/
def updateParseAs4 (wide : Bool) (bytes : Bytes) : Work UpdateMsg :=
  if bytes.length < 4 then throw .badLen
  else
    let withdrawnLen := readBe (bytes.take 2)
    let body := bytes.drop 2
    if body.length < withdrawnLen then throw .badLen
    else do
      let withdrawn ← prefixesParse 32 (body.take withdrawnLen)
      let body := body.drop withdrawnLen
      if body.length < 2 then throw .badLen
      else
        let attrLen := readBe (body.take 2)
        let body := body.drop 2
        if body.length < attrLen then throw .badLen
        else do
          let attrs ← parseAttrs wide attrLen 0 [] (body.take attrLen)
          let nlri ← prefixesParse 32 (body.drop attrLen)
          let update : UpdateMsg := ⟨withdrawn, attrs, nlri⟩
          Work.ofExcept (updateValidate update)
          pure update

end Libbgp
