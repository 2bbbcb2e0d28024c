/-
Path attributes as bytes: the header, the flags it depends on, and the value behind it.
-/

import Libbgp.Proof.ValueCodec

namespace Libbgp

open Library List

section Lengths

variable {wide : Bool} {data : PAttrData} {width : Nat} {prefixes : List (Prefix width)}

theorem length_writeAsPathValue (segments : List AsPathSegment) : (writeAsPathValue segments wide).length =
    (segments.map fun segment => 2 + segment.asns.length * asnSize wide).sum := by
  induction segments with
  | nil => rfl
  | cons segment rest ih =>
    have words := @length_words (asnSize wide) segment.asns
    rw [writeAsPathValue_cons, asnWrite_eq]
    simp only [length_cons, length_append, map_cons, sum_cons, words, ih]
    omega

theorem length_prefixes (whole : 8 ∣ width) (fits : ∀ pfx ∈ prefixes, pfx.len ≤ width) :
    (prefixes.flatMap prefixWrite).length = (prefixes.map fun pfx => 1 + prefixOctets pfx.len).sum := by
  rw [length_flatMap]
  exact congrArg sum (map_congr_left fun pfx member => length_prefixWrite whole (fits pfx member))

/-- The measured length of prefixes is their length on the wire. -/
theorem prefixesLen_iff (whole : 8 ∣ width) {len : Nat} :
    prefixesLen prefixes = .ok len ↔
      (∀ pfx ∈ prefixes, pfx.len ≤ width) ∧ len = (prefixes.flatMap prefixWrite).length := by
  unfold prefixesLen
  split
  case isTrue long =>
    obtain ⟨pfx, member, beyond⟩ := any_eq_true.mp long
    refine ⟨nofun, fun ⟨fits, _⟩ => ?_⟩
    exact absurd (fits pfx member) (Nat.not_le.mpr (of_decide_eq_true beyond))
  case isFalse short =>
    have fits : ∀ pfx ∈ prefixes, pfx.len ≤ width := by
      intro pfx member
      refine Nat.not_lt.mp fun beyond => short (any_eq_true.mpr ⟨pfx, member, ?_⟩)
      exact decide_eq_true beyond
    rw [length_prefixes whole fits]
    exact ⟨fun done => ⟨fits, (Except.ok.inj done).symm⟩, fun ⟨_, same⟩ => congrArg Except.ok same.symm⟩

theorem segmentWritable_iff {segment : AsPathSegment} : segmentWritable segment = true ↔
    (segment.type = 1 ∨ segment.type = 2) ∧ segment.asns.length ≤ 255 := by
  have range : 1 ≤ segment.type ∧ segment.type ≤ 2 ↔ segment.type = 1 ∨ segment.type = 2 := by
    simp only [UInt8.le_iff_toNat_le, ← UInt8.toNat_inj]
    exact (by omega : 1 ≤ segment.type.toNat ∧ segment.type.toNat ≤ 2 ↔ segment.type.toNat = 1 ∨ segment.type.toNat = 2)
  simp only [segmentWritable, Bool.and_eq_true, decide_eq_true_eq, range]

theorem segments_writable {segments : List AsPathSegment} (legible : ∀ segment ∈ segments, segment.Legible wide) :
    segments.all segmentWritable = true :=
  all_eq_true.mpr fun segment member =>
    segmentWritable_iff.mpr ⟨(legible segment member).type, (legible segment member).few⟩

/-- Two bytes are enough for an AS number, as the encoder tests it. -/
theorem narrow_iff (asn : UInt32) : asn ≤ 65535 ↔ asn.toNat < 256 ^ asnSize false := by
  rw [UInt32.le_iff_toNat_le]
  exact Nat.lt_succ_iff.symm

/-- The encoder computes the length of what it writes. -/
theorem PAttrData.Legible.kindLen (legible : data.Legible wide) : kindLen data = .ok (writeValue data).length := by
  cases data with
  | origin | med | localPref | atomicAggregate => rfl
  | unknown => rfl
  | nextHop nextHop => exact congrArg Except.ok (length_addrWrite_32 nextHop).symm
  | asPath segments is4b =>
    rw [Libbgp.kindLen, if_pos (segments_writable legible.2)]
    exact congrArg Except.ok (length_writeAsPathValue segments).symm
  | as4Path segments is4b =>
    obtain ⟨rfl, segmentsLegible⟩ := legible
    rw [Libbgp.kindLen, segments_writable segmentsLegible]
    exact congrArg Except.ok (length_writeAsPathValue segments).symm
  | aggregator asn routerId is4b =>
    obtain ⟨rfl, small⟩ := legible
    have size := @length_asnWrite is4b asn
    have fits : (!is4b && decide (65535 < asn)) = false := by
      cases is4b with
      | true => rfl
      | false => exact decide_eq_false (UInt32.not_lt.mpr ((narrow_iff asn).mpr small))
    rw [Libbgp.kindLen, fits]
    show Except.ok _ = Except.ok (asnWrite is4b asn ++ addrWrite routerId).length
    rw [length_append, size, length_addrWrite_32]
  | community values =>
    have words := @length_words 4 values
    have written : writeValue (.community values) = values.flatMap fun value => Words.write 4 value.toNat :=
      flatMap_congr fun value _ => be32_eq value.toNat
    rw [written, words]
    rfl
  | as4Aggregator asn routerId is4b =>
    show Except.ok 8 = Except.ok (be32 asn.toNat ++ addrWrite routerId).length
    rw [length_append, length_addrWrite_32]
    rfl
  | mpReachIpv6 nexthop linkLocal nexthopLen nlri =>
    obtain ⟨hops, fits⟩ := legible
    have known : ¬ (nexthopLen ≠ 16 ∧ nexthopLen ≠ 32) := by omega
    have both : (addrWrite nexthop ++ addrWrite linkLocal).length = 32 := by
      rw [length_append, length_addrWrite_128, length_addrWrite_128]
    rw [Libbgp.kindLen, if_neg known, (prefixesLen_iff (by decide)).mpr ⟨fits, rfl⟩]
    refine congrArg Except.ok ?_
    simp only [writeValue, length_append, length_take, both, length_cons, length_nil]
    omega
  | mpUnreachIpv6 withdrawn =>
    rw [Libbgp.kindLen, (prefixesLen_iff (by decide)).mpr ⟨legible, rfl⟩]
    exact congrArg Except.ok (Nat.add_comm 3 _)

theorem PAttrData.Legible.writable (legible : data.Legible wide) : valueWritable data = true := by
  cases data with
  | origin origin => exact decide_eq_true legible
  | asPath segments is4b =>
    obtain ⟨rfl, segmentsLegible⟩ := legible
    cases is4b with
    | true => rfl
    | false =>
      refine all_eq_true.mpr fun segment member => all_eq_true.mpr fun asn inside => decide_eq_true ?_
      exact (narrow_iff asn).mpr ((segmentsLegible segment member).small asn inside)
  | as4Path segments is4b =>
    obtain ⟨rfl, -⟩ := legible
    rfl
  | _ => rfl

end Lengths

/-- The message's AS numbers have one width, and its opaque attributes have codes that are not recognised. -/
def PAttrData.OfWidth (wide : Bool) : PAttrData → Prop
  | .asPath _ is4b | .aggregator _ _ is4b => is4b = wide
  | .unknown code _ _ => pattrTypeFromCode code = .unknown
  | _ => True

/-- Everything that the value stores has a place in its bytes. -/
def PAttrData.Faithful : PAttrData → Prop
  | .asPath segments _ | .as4Path segments _ => ∀ segment ∈ segments, segment.asns ≠ []
  | .as4Aggregator _ _ is4b => is4b = true
  | .mpReachIpv6 _ linkLocal nexthopLen _ => nexthopLen = 16 → linkLocal = 0
  | _ => True

section Accepted

variable {wide : Bool} {data : PAttrData} {len : Nat}

/-- A value that the parser returns leaves nothing out of its bytes. -/
theorem PAttrData.Legible.faithful (legible : data.Legible wide) : data.Faithful := by
  cases data with
  | asPath segments is4b | as4Path segments is4b => exact fun segment member => (legible.2 segment member).nonempty
  | as4Aggregator => exact legible
  | mpReachIpv6 nexthop linkLocal nexthopLen nlri =>
    rcases legible.1 with ⟨-, none⟩ | long
    · exact fun _ => none
    · exact fun short => absurd (short.symm.trans long) (by decide)
  | _ => trivial

/-- Clearing the host bits of the prefixes does not touch what a faithful value needs. -/
theorem PAttrData.faithful_cleared : data.cleared.Faithful ↔ data.Faithful := by
  cases data <;> exact Iff.rfl

theorem segments_legible {segments : List AsPathSegment} (writable : segments.all segmentWritable = true)
    (small : ∀ segment ∈ segments, ∀ asn ∈ segment.asns, asn.toNat < 256 ^ asnSize wide)
    (nonempty : ∀ segment ∈ segments, segment.asns ≠ []) : ∀ segment ∈ segments, segment.Legible wide := by
  intro segment member
  have form := segmentWritable_iff.mp (all_eq_true.mp writable segment member)
  exact ⟨form.1, nonempty segment member, form.2, small segment member⟩

theorem exists_of_ite {good : Prop} [Decidable good] {fault : Fault} {number : Nat}
    (done : (if good then .ok number else .error fault) = Except.ok len) : good ∧ number = len := by
  split at done
  case isTrue holds => exact ⟨holds, Except.ok.inj done⟩
  case isFalse => cases done

/-- What the encoder accepts is legible, when nothing that is stored is left out of the bytes. -/
theorem PAttrData.Faithful.legible (faithful : data.Faithful) (width : data.OfWidth wide)
    (sized : kindLen data = .ok len) (writable : valueWritable data = true) : data.Legible wide := by
  cases data with
  | origin origin =>
    have known : origin ≤ 2 := of_decide_eq_true writable
    exact known
  | asPath segments is4b =>
    obtain rfl : is4b = wide := width
    obtain ⟨formed, -⟩ := exists_of_ite sized
    refine ⟨rfl, segments_legible formed (fun segment member asn inside => ?_) faithful⟩
    cases is4b with
    | true => exact asn.toNat_lt
    | false =>
      have narrow := all_eq_true.mp (all_eq_true.mp writable segment member) asn inside
      exact (narrow_iff asn).mp (of_decide_eq_true narrow)
  | as4Path segments is4b =>
    obtain ⟨formed, -⟩ := exists_of_ite sized
    obtain ⟨rfl, formed⟩ := Bool.and_eq_true_iff.mp formed
    exact ⟨rfl, segments_legible formed (fun _ _ asn _ => asn.toNat_lt) faithful⟩
  | aggregator asn routerId is4b =>
    obtain rfl : is4b = wide := width
    refine ⟨rfl, ?_⟩
    cases is4b with
    | true => exact asn.toNat_lt
    | false =>
      refine (narrow_iff asn).mp (UInt32.not_lt.mp fun large => ?_)
      rw [kindLen, if_pos (by simp [large])] at sized
      cases sized
  | as4Aggregator asn routerId is4b => exact faithful
  | mpReachIpv6 nexthop linkLocal nexthopLen nlri =>
    rw [kindLen] at sized
    split at sized
    case isTrue => cases sized
    case isFalse known =>
      obtain ⟨total, measured, -⟩ := Work.exists_of_bind sized
      refine ⟨?_, ((prefixesLen_iff (by decide)).mp measured).1⟩
      rcases Decidable.em (nexthopLen = 16) with single | double
      · exact .inl ⟨single, faithful single⟩
      · exact .inr (by omega)
  | mpUnreachIpv6 withdrawn =>
    obtain ⟨total, measured, -⟩ := Work.exists_of_bind sized
    exact ((prefixesLen_iff (by decide)).mp measured).1
  | unknown code value undecoded => exact .inl width
  | nextHop | med | localPref | atomicAggregate | community => exact trivial

end Accepted

/-- The bytes before a value, in the form that the flags ask for. -/
def attrHeader (flags code : UInt8) (length : Nat) : Bytes :=
  if flags &&& 0x10 != 0 then [flags, code] ++ be16 length else [flags, code, UInt8.ofNat length]

/-- The lengths that such a header has room for. -/
def lengthLimit (flags : UInt8) : Nat := if flags &&& 0x10 != 0 then 65536 else 256

/-- The sizes of the header and of the value at the start of some bytes. -/
def attrSpan (bytes : Bytes) : Nat × Nat :=
  if bytes.getD 0 0 &&& 0x10 != 0 then (4, readBe ((bytes.drop 2).take 2)) else (3, (bytes.getD 2 0).toNat)

section Headers

variable {wide : Bool} {bytes value rest : Bytes} {flags code : UInt8} {attr : PAttr} {length : Nat}

/-- A written header is read with its own length and value. -/
theorem attrSpan_header (fits : length < lengthLimit flags) :
    attrSpan (attrHeader flags code length ++ rest) = ((attrHeader flags code length).length, length) := by
  unfold lengthLimit at fits
  unfold attrHeader attrSpan
  cases extended : flags &&& 0x10 != 0 with
  | true =>
    rw [extended, if_pos rfl] at fits
    rw [if_pos rfl, if_pos (by exact extended)]
    exact congrArg (Prod.mk 4) (readBe_be16 fits)
  | false =>
    rw [extended, if_neg Bool.false_ne_true] at fits
    rw [if_neg Bool.false_ne_true, if_neg (by exact Bool.eq_false_iff.mp extended)]
    refine congrArg (Prod.mk 3) ?_
    show (UInt8.ofNat length).toNat = length
    rw [UInt8.toNat_ofNat', Nat.mod_eq_of_lt fits]

theorem three_le_attrHeader : 3 ≤ (attrHeader flags code length).length := by
  unfold attrHeader
  split <;> simp

/-- The attribute parser, with its header as one span. -/
theorem pattrParseAs4_eq (wide : Bool) (bytes : Bytes) : pattrParseAs4 wide bytes =
    if bytes.length < 3 then throw .badLen
    else if bytes.length < (attrSpan bytes).1 then throw .badLen
    else if (bytes.drop (attrSpan bytes).1).length < (attrSpan bytes).2 then throw .badLen
    else if !pattrKnownFlagsValid (pattrTypeFromCode (bytes.getD 1 0)) (bytes.getD 0 0) then throw .invalid
    else (do
      let data ← parseValue (bytes.getD 1 0) wide ((bytes.drop (attrSpan bytes).1).take (attrSpan bytes).2)
      pure (⟨bytes.getD 0 0, data⟩, (bytes.drop (attrSpan bytes).1).drop (attrSpan bytes).2)) := by
  unfold pattrParseAs4 attrSpan
  cases extended : bytes.getD 0 0 &&& 0x10 != 0 with
  | true => simp only [extended, Bool.true_and, decide_eq_true_eq, ↓reduceIte]
  | false =>
    simp only [extended, Bool.false_and, Bool.false_eq_true, ↓reduceIte]
    split
    case isTrue => rfl
    case isFalse => rfl

/-- Behind a well-formed header only flags and value count. -/
theorem pattrParseAs4_bytes (fits : value.length < lengthLimit flags) :
    pattrParseAs4 wide (attrHeader flags code value.length ++ value ++ rest) =
      if !pattrKnownFlagsValid (pattrTypeFromCode code) flags then throw .invalid
      else (do
        let data ← parseValue code wide value
        pure (⟨flags, data⟩, rest)) := by
  have span := @attrSpan_header (value ++ rest) flags code value.length fits
  have long := @three_le_attrHeader flags code value.length
  rw [append_assoc]
  have first : (attrHeader flags code value.length ++ (value ++ rest)).getD 0 0 = flags := by
    unfold attrHeader
    split <;> rfl
  have second : (attrHeader flags code value.length ++ (value ++ rest)).getD 1 0 = code := by
    unfold attrHeader
    split <;> rfl
  have short : ¬ (attrHeader flags code value.length ++ (value ++ rest)).length < 3 := by
    rw [length_append]
    omega
  have header : ¬ (attrHeader flags code value.length ++ (value ++ rest)).length <
      (attrHeader flags code value.length).length := by
    rw [length_append]
    omega
  have body : ¬ (value ++ rest).length < value.length := by
    rw [length_append]
    omega
  rw [pattrParseAs4_eq, span, first, second, if_neg short]
  dsimp only
  rw [if_neg header, drop_left, if_neg body, take_left, drop_left]

/-- The span that is read is that of a written header. -/
theorem attrSpan_bytes (long : 3 ≤ bytes.length) (header : (attrSpan bytes).1 ≤ bytes.length) :
    bytes.take (attrSpan bytes).1 = attrHeader (bytes.getD 0 0) (bytes.getD 1 0) (attrSpan bytes).2 ∧
      (attrSpan bytes).2 < lengthLimit (bytes.getD 0 0) := by
  obtain ⟨flags, code, third, more, rfl⟩ : ∃ flags code third more, bytes = flags :: code :: third :: more := by
    match bytes, long with
    | flags :: code :: third :: more, _ => exact ⟨flags, code, third, more, rfl⟩
  show take _ _ = attrHeader flags code _ ∧ _ < lengthLimit flags
  unfold attrSpan attrHeader lengthLimit at *
  simp only [getD_cons_zero, getD_cons_succ] at *
  cases extended : flags &&& 0x10 != 0 with
  | true =>
    rw [extended, if_pos rfl] at header
    obtain ⟨fourth, more, rfl⟩ : ∃ fourth rest, more = fourth :: rest := by
      match more, header with
      | fourth :: rest, _ => exact ⟨fourth, rest, rfl⟩
    have size : ([third, fourth] : Bytes).length = 2 := rfl
    refine ⟨?_, readBe_lt size⟩
    exact congrArg (flags :: code :: ·) (be16_readBe size).symm
  | false =>
    refine ⟨?_, third.toNat_lt⟩
    exact congrArg (fun last => [flags, code, last]) UInt8.ofNat_toNat.symm

/-- The bytes of an attribute that was read. -/
theorem pattrParseAs4_shape (yields : Work.Yields (pattrParseAs4 wide bytes) (attr, rest)) :
    ∃ code value, value.length < lengthLimit attr.flags ∧
      bytes = attrHeader attr.flags code value.length ++ value ++ rest ∧
      pattrKnownFlagsValid (pattrTypeFromCode code) attr.flags = true ∧
      Work.Yields (parseValue code wide value) attr.data := by
  rw [pattrParseAs4_eq] at yields
  obtain ⟨long, yields⟩ := yields.check
  obtain ⟨header, yields⟩ := yields.check
  obtain ⟨body, yields⟩ := yields.check
  obtain ⟨valid, yields⟩ := yields.check
  obtain ⟨data, parsed, done⟩ := yields.bind
  obtain ⟨rfl, rfl⟩ := Prod.mk.inj (Work.yields_pure done)
  obtain ⟨start, fits⟩ := attrSpan_bytes (Nat.not_lt.mp long) (Nat.not_lt.mp header)
  have size : ((bytes.drop (attrSpan bytes).1).take (attrSpan bytes).2).length = (attrSpan bytes).2 :=
    length_take_of_le (Nat.not_lt.mp body)
  refine ⟨_, _, size.symm ▸ fits, ?_, by simpa using valid, parsed⟩
  rw [size, ← start, append_assoc, take_append_drop, take_append_drop]

end Headers

/-- The flags that an attribute is written with. -/
def PAttr.wireFlags (attr : PAttr) : UInt8 :=
  if 255 < (writeValue attr.data).length then attr.flags ||| 0x10 else attr.flags

/-- The bytes of an attribute. -/
def attrBytes (attr : PAttr) : Bytes :=
  attrHeader attr.wireFlags attr.typeCode (writeValue attr.data).length ++ writeValue attr.data

/-- The attribute as it is read from its bytes: a long value has the flag for it, and prefixes have no host
bits. -/
def PAttr.normal (attr : PAttr) : PAttr := ⟨attr.wireFlags, attr.data.cleared⟩

/-- An attribute that is written and read again. -/
structure PAttr.Legible (wide : Bool) (attr : PAttr) : Prop where
  data : attr.data.Legible wide
  flags : pattrKnownFlagsValid (pattrTypeFromCode attr.typeCode) attr.flags = true
  short : (writeValue attr.data).length ≤ 65535

section Flags

/-- A fact about every byte is checked byte by byte. -/
theorem forall_byte {holds : UInt8 → Prop} (each : ∀ bits : BitVec 8, holds ⟨bits⟩) (byte : UInt8) : holds byte :=
  each byte.toBitVec

theorem set_extended : ∀ flags : UInt8, (flags &&& 0xef) ||| 0x10 = flags ||| 0x10 :=
  forall_byte (by decide +kernel)

theorem extended_or : ∀ flags : UInt8, ((flags ||| 0x10) &&& 0x10 != 0) = true :=
  forall_byte (by decide +kernel)

theorem or_extended : ∀ flags : UInt8, (flags &&& 0x10 != 0) = true → flags ||| 0x10 = flags :=
  forall_byte (by decide +kernel)

theorem clear_extended : ∀ flags : UInt8, (flags &&& 0x10 != 0) = false → flags &&& 0xef = flags :=
  forall_byte (by decide +kernel)

theorem flagsValid_extended (type : PAttrType) (flags : UInt8) :
    pattrKnownFlagsValid type (flags ||| 0x10) = pattrKnownFlagsValid type flags := by
  have low : ∀ flags : UInt8, (flags ||| 0x10) &&& 0x0f = flags &&& 0x0f := forall_byte (by decide +kernel)
  have incomplete : ∀ flags : UInt8, (flags ||| 0x10) &&& 0x20 = flags &&& 0x20 := forall_byte (by decide +kernel)
  have optional : ∀ flags : UInt8, (flags ||| 0x10) &&& 0x80 = flags &&& 0x80 := forall_byte (by decide +kernel)
  have transitive : ∀ flags : UInt8, (flags ||| 0x10) &&& 0x40 = flags &&& 0x40 := forall_byte (by decide +kernel)
  have both : ∀ flags : UInt8, (flags ||| 0x10) &&& 0xc0 = flags &&& 0xc0 := forall_byte (by decide +kernel)
  unfold pattrKnownFlagsValid
  simp only [low, incomplete, optional, transitive, both]

/-- The flags of the two multiprotocol attributes are fine for an opaque attribute. -/
theorem flagsValid_unknown : ∀ flags : UInt8, pattrKnownFlagsValid .mpReachIpv6 flags = true →
    pattrKnownFlagsValid .unknown flags = true :=
  forall_byte (by decide +kernel)

end Flags

/-- The bytes of attributes without the host bits of their prefixes. -/
def clearAttrs : Nat → Bytes → Bytes
  | 0, bytes => bytes
  | fuel + 1, bytes =>
    if bytes.isEmpty then []
    else
      let span := attrSpan bytes
      let body := bytes.drop span.1
      bytes.take span.1 ++ clearValue (bytes.getD 1 0) (body.take span.2) ++ clearAttrs fuel (body.drop span.2)

/-- What is known of an attribute that was read: the bytes of its value, which begin after the header. -/
structure AttrRead (wide : Bool) (attr : PAttr) (value : Bytes) : Prop where
  legible : attr.Legible wide
  normal : attr.normal = attr
  fits : value.length < lengthLimit attr.flags
  written : writeValue attr.data = clearValue attr.typeCode value
  length : (writeValue attr.data).length = value.length

section Attributes

variable {wide : Bool} {bytes rest : Bytes} {attr : PAttr}

theorem writeHeader_eq : writeHeader attr (writeValue attr.data).length =
    attrHeader attr.wireFlags attr.typeCode (writeValue attr.data).length := by
  unfold writeHeader attrHeader isExtended PAttr.wireFlags
  dsimp only
  rcases Nat.lt_or_ge 255 (writeValue attr.data).length with long | short
  · rw [if_pos long, decide_eq_true long, extended_or, set_extended]
    rfl
  · rw [if_neg (Nat.not_lt.mpr short), decide_eq_false (Nat.not_lt.mpr short), Bool.false_or]
    cases extended : attr.flags &&& 0x10 != 0 with
    | true =>
      rw [set_extended, or_extended _ extended]
      rfl
    | false =>
      rw [clear_extended _ extended]
      rfl

theorem length_wireHeader : headerLen attr (writeValue attr.data).length =
    (attrHeader attr.wireFlags attr.typeCode (writeValue attr.data).length).length := by
  rw [← writeHeader_eq, headerLen, writeHeader]
  split <;> rfl

theorem pattrTypeFromCode_typeCode (decoded : attr.type ≠ .unknown) : pattrTypeFromCode attr.typeCode = attr.type := by
  unfold PAttr.type PAttr.typeCode at *
  cases data : attr.data <;> rw [data] at decoded <;> first | rfl | exact absurd rfl decoded

theorem wireFlags_valid (type : PAttrType) :
    pattrKnownFlagsValid type attr.wireFlags = pattrKnownFlagsValid type attr.flags := by
  unfold PAttr.wireFlags
  split
  · exact flagsValid_extended type attr.flags
  · rfl

/-- A legible attribute has the flags of its type. -/
theorem PAttr.Legible.flagsValid (legible : attr.Legible wide) : pattrKnownFlagsValid attr.type attr.flags = true := by
  have valid := legible.flags
  have value := legible.data
  rcases attr with ⟨flags, data⟩
  cases data with
  | unknown code bytes undecoded =>
    rcases value with unknown | ⟨-, ⟨rfl, -⟩ | ⟨rfl, -⟩⟩
    · rwa [show PAttr.typeCode ⟨flags, .unknown code bytes undecoded⟩ = code from rfl, unknown] at valid
    · exact flagsValid_unknown flags valid
    · exact flagsValid_unknown flags valid
  | _ => exact valid

theorem PAttr.Legible.valueLen (legible : attr.Legible wide) :
    pattrValueLen attr = .ok (writeValue attr.data).length := by
  rw [pattrValueLen, legible.flagsValid, legible.data.kindLen]
  exact if_neg (Nat.not_lt.mpr legible.short)

theorem PAttr.Legible.wireLen (legible : attr.Legible wide) : pattrWireLen attr = .ok (attrBytes attr).length := by
  rw [pattrWireLen, legible.valueLen, attrBytes, length_append, ← length_wireHeader]
  show (if !valueWritable attr.data then _ else _) = _
  rw [legible.data.writable]
  rfl

theorem PAttr.Legible.write (legible : attr.Legible wide) {size : Nat} (room : (attrBytes attr).length ≤ size) :
    pattrWrite attr size = .ok (attrBytes attr) := by
  rw [attrBytes, length_append, ← length_wireHeader] at room
  rw [pattrWrite, legible.valueLen, attrBytes, ← writeHeader_eq]
  refine (if_neg (Nat.not_lt.mpr room)).trans ?_
  rw [legible.data.writable]
  rfl

theorem lengthLimit_wireFlags (short : (writeValue attr.data).length ≤ 65535) :
    (writeValue attr.data).length < lengthLimit attr.wireFlags := by
  unfold PAttr.wireFlags lengthLimit
  split
  case isTrue => rw [extended_or]; exact Nat.lt_succ_of_le short
  case isFalse small => split <;> omega

/-- A written attribute is read back. -/
theorem pattrParseAs4_gives (legible : attr.Legible wide) :
    Work.Gives (pattrParseAs4 wide (attrBytes attr ++ rest)) (attr.normal, rest) := by
  rw [attrBytes, pattrParseAs4_bytes (lengthLimit_wireFlags legible.short), wireFlags_valid, legible.flags]
  exact (parseValue_gives legible.data).bind (Work.gives_pure _)

/-- What is read is legible, and is written as it was read. -/
theorem pattrParseAs4_yields (yields : Work.Yields (pattrParseAs4 wide bytes) (attr, rest)) :
    ∃ value, bytes = attrHeader attr.flags attr.typeCode value.length ++ value ++ rest ∧ AttrRead wide attr value := by
  obtain ⟨code, value, fits, shape, valid, parsed⟩ := pattrParseAs4_shape yields
  have read := parseValue_yields parsed
  obtain rfl : attr.typeCode = code := read.typed
  have limit : lengthLimit attr.flags ≤ 65536 := by
    unfold lengthLimit
    split <;> decide
  have flags : attr.wireFlags = attr.flags := by
    unfold PAttr.wireFlags
    split
    case isFalse => rfl
    case isTrue long =>
      refine or_extended attr.flags (Bool.not_eq_false _ ▸ fun short => ?_)
      unfold lengthLimit at fits
      rw [short, if_neg Bool.false_ne_true] at fits
      rw [read.length] at long
      omega
  refine ⟨value, shape, ⟨read.legible, valid, ?_⟩, ?_, fits, read.written, read.length⟩
  · rw [read.length]
    omega
  · unfold PAttr.normal
    rw [flags, read.cleared]

theorem clearAttrs_header {flags code : UInt8} {value : Bytes} (fits : value.length < lengthLimit flags) (fuel : Nat) :
    clearAttrs (fuel + 1) (attrHeader flags code value.length ++ value ++ rest) =
      attrHeader flags code value.length ++ clearValue code value ++ clearAttrs fuel rest := by
  have span := @attrSpan_header (value ++ rest) flags code value.length fits
  have second : (attrHeader flags code value.length ++ (value ++ rest)).getD 1 0 = code := by
    unfold attrHeader
    split <;> rfl
  have some : (attrHeader flags code value.length ++ (value ++ rest)).isEmpty = false := by
    unfold attrHeader
    split <;> rfl
  rw [append_assoc, clearAttrs, some, span, second]
  dsimp only
  rw [take_left, drop_left, take_left, drop_left]
  rfl

end Attributes

end Libbgp
