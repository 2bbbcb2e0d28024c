/-
The values of path attributes as bytes: what is written can be read, and what is read can be written.
-/

import Libbgp.Proof.Bytes

namespace Libbgp

open Library List Work Words

/-- The bytes of one AS number. -/
def asnWrite (wide : Bool) (asn : UInt32) : Bytes := if wide then be32 asn.toNat else be16 asn.toNat

/-- A segment that is written and read again: it lists an AS number at least, and all fit their width. -/
structure AsPathSegment.Legible (wide : Bool) (segment : AsPathSegment) : Prop where
  type : segment.type = 1 ∨ segment.type = 2
  nonempty : segment.asns ≠ []
  few : segment.asns.length ≤ 255
  small : ∀ asn ∈ segment.asns, asn.toNat < 256 ^ asnSize wide

section Words32

variable {size count : Nat} {bytes rest : Bytes}

theorem toNat_ofNat_row {number : Nat} (narrow : size ≤ 4) (member : number ∈ row size count bytes) :
    (UInt32.ofNat number).toNat = number := by
  have small := row_lt member
  have bound : 256 ^ size ≤ 256 ^ 4 := Nat.pow_le_pow_right (by decide) narrow
  exact UInt32.toNat_ofNat_of_lt' (lt_of_lt_of_le small bound)

theorem write_words (narrow : size ≤ 4) (enough : count * size ≤ bytes.length) :
    ((row size count bytes).map UInt32.ofNat).flatMap (fun word => write size word.toNat) =
      bytes.take (count * size) := by
  rw [← write_row enough, flatMap_map]
  refine flatMap_congr fun number member => ?_
  rw [toNat_ofNat_row narrow member]

theorem read_words (words : List UInt32) (small : ∀ word ∈ words, word.toNat < 256 ^ size) :
    (row size words.length (words.flatMap (fun word => write size word.toNat) ++ rest)).map UInt32.ofNat =
      words := by
  have row := @Words.row_write size rest (words.map UInt32.toNat) (by
    intro number member
    obtain ⟨word, inside, rfl⟩ := mem_map.mp member
    exact small word inside)
  rw [length_map, flatMap_map] at row
  rw [row, map_map]
  exact (map_congr_left fun word _ => UInt32.ofNat_toNat).trans (map_id words)

theorem length_words (words : List UInt32) :
    (words.flatMap fun word => write size word.toNat).length = words.length * size := by
  induction words with
  | nil => simp
  | cons word words ih => simp [ih, Nat.succ_mul, Nat.add_comm]

end Words32

section Segments

variable {wide : Bool} {segments : List AsPathSegment} {bytes : Bytes}

theorem asnWrite_eq (wide : Bool) : asnWrite wide = fun asn => write (asnSize wide) asn.toNat := by
  funext asn
  cases wide
  · exact be16_eq _
  · exact be32_eq _

theorem asnSize_le (wide : Bool) : asnSize wide ≤ 4 := by cases wide <;> decide

theorem writeAsPathValue_eq : writeAsPathValue segments wide = segments.flatMap fun segment =>
    segment.type :: UInt8.ofNat segment.asns.length :: segment.asns.flatMap (asnWrite wide) := rfl

theorem writeAsPathValue_cons (segment : AsPathSegment) : writeAsPathValue (segment :: segments) wide =
    segment.type :: UInt8.ofNat segment.asns.length ::
      (segment.asns.flatMap (asnWrite wide) ++ writeAsPathValue segments wide) := by
  simp [writeAsPathValue_eq]

/-- A written path is read back. -/
theorem parseSegments_write (legible : ∀ segment ∈ segments, segment.Legible wide) (fuel : Nat)
    (enough : segments.length ≤ fuel) : parseSegments wide fuel (writeAsPathValue segments wide) = .ok segments := by
  induction segments generalizing fuel with
  | nil => cases fuel <;> rfl
  | cons segment rest ih =>
    obtain ⟨type, nonempty, few, small⟩ := legible segment mem_cons_self
    obtain ⟨fuel, rfl⟩ : ∃ less, fuel = less + 1 := ⟨fuel - 1, by rw [length_cons] at enough; omega⟩
    have later := ih (fun other member => legible other (mem_cons_of_mem _ member)) fuel
      (by rw [length_cons] at enough; omega)
    have count : (UInt8.ofNat segment.asns.length).toNat = segment.asns.length := by
      rw [UInt8.toNat_ofNat', Nat.mod_eq_of_lt (show segment.asns.length < 2 ^ 8 by omega)]
    have listed : UInt8.ofNat segment.asns.length ≠ 0 := by
      intro zero
      rw [zero] at count
      exact nonempty (length_eq_zero_iff.mp count.symm)
    have known : (segment.type < 1 || 2 < segment.type) = false := by
      rcases type with same | same <;> rw [same] <;> rfl
    have length := @length_words (asnSize wide) segment.asns
    have asns := @read_words (asnSize wide) (writeAsPathValue rest wide) segment.asns small
    rw [writeAsPathValue_cons, asnWrite_eq, parseSegments, known, if_neg (by decide), if_neg listed, count,
      if_neg (by rw [length_append, length]; omega), drop_left' length, later]
    rw [row, map_map] at asns
    exact congrArg (fun asns => Except.ok (⟨segment.type, asns⟩ :: rest)) asns

/-- What is known of segments that were read. -/
structure SegmentsRead (wide : Bool) (bytes : Bytes) (segments : List AsPathSegment) : Prop where
  legible : ∀ segment ∈ segments, segment.Legible wide
  written : writeAsPathValue segments wide = bytes

/-- What is read as a path is that path's encoding. -/
theorem parseSegments_read (fuel : Nat) (read : parseSegments wide fuel bytes = .ok segments) :
    SegmentsRead wide bytes segments := by
  fun_induction parseSegments wide fuel bytes generalizing segments with
  | case1 fuel =>
    obtain rfl := Except.ok.inj read
    exact ⟨fun _ member => (nomatch member), rfl⟩
  | case2 | case3 | case4 | case5 | case6 => cases read
  | case7 fuel type count rest size known listed enough asns =>
    rename_i ih
    obtain ⟨more, later, done⟩ := exists_of_bind read
    obtain rfl := Except.ok.inj done
    have others := ih later
    have enough := Nat.not_lt.mp enough
    have row : asns = (row size count.toNat rest).map UInt32.ofNat := by
      rw [row, map_map]
      rfl
    have written : asns.flatMap (asnWrite wide) = rest.take (count.toNat * size) := by
      rw [row, asnWrite_eq]
      exact write_words (asnSize_le wide) enough
    have length : asns.length = count.toNat := by rw [row, length_map, length_row]
    refine ⟨?_, ?_⟩
    · intro segment member
      rcases mem_cons.mp member with rfl | inside
      · refine ⟨?_, ?_, ?_, ?_⟩
        · have range : 1 ≤ type.toNat ∧ type.toNat ≤ 2 := by
            simpa [UInt8.lt_iff_toNat_lt, Nat.one_le_iff_ne_zero] using known
          rcases Nat.le_iff_lt_or_eq.mp range.2 with less | same
          · exact .inl (UInt8.toNat_inj.mp (show type.toNat = 1 by omega))
          · exact .inr (UInt8.toNat_inj.mp same)
        · intro empty
          dsimp only at empty
          rw [empty] at length
          exact listed (UInt8.toNat_inj.mp length.symm)
        · have := count.toNat_lt
          dsimp only
          omega
        · intro asn inside
          dsimp only at inside
          rw [row] at inside
          obtain ⟨number, found, rfl⟩ := mem_map.mp inside
          rw [toNat_ofNat_row (asnSize_le wide) found]
          exact row_lt found
      · exact others.legible segment inside
    · rw [writeAsPathValue_cons, written, others.written, take_append_drop, length, UInt8.ofNat_toNat]

end Segments

/-- A value that the parser keeps as it is: its type code is not recognised, or it is about another address
family. -/
def KeptRaw (code : UInt8) (value : Bytes) : Prop :=
  pattrTypeFromCode code = .unknown ∨
    (isIpv6Unicast value = false ∧ (code = 14 ∧ 5 ≤ value.length ∨ code = 15 ∧ 3 ≤ value.length))

/-- A value that is written and read again with AS numbers of the given width. -/
def PAttrData.Legible (wide : Bool) : PAttrData → Prop
  | .origin value => value ≤ 2
  | .asPath segments is4b => is4b = wide ∧ ∀ segment ∈ segments, segment.Legible wide
  | .aggregator asn _ is4b => is4b = wide ∧ asn.toNat < 256 ^ asnSize wide
  | .as4Path segments is4b => is4b = true ∧ ∀ segment ∈ segments, segment.Legible true
  | .as4Aggregator _ _ is4b => is4b = true
  | .mpReachIpv6 _ linkLocal nexthopLen nlri =>
    (nexthopLen = 16 ∧ linkLocal = 0 ∨ nexthopLen = 32) ∧ ∀ pfx ∈ nlri, pfx.len ≤ 128
  | .mpUnreachIpv6 withdrawn => ∀ pfx ∈ withdrawn, pfx.len ≤ 128
  | .unknown code value _ => KeptRaw code value
  | .nextHop _ | .med _ | .localPref _ | .atomicAggregate | .community _ => True

/-- The value without the host bits of its prefixes. -/
def PAttrData.cleared : PAttrData → PAttrData
  | .mpReachIpv6 nexthop linkLocal nexthopLen nlri =>
    .mpReachIpv6 nexthop linkLocal nexthopLen (nlri.map Prefix.cleared)
  | .mpUnreachIpv6 withdrawn => .mpUnreachIpv6 (withdrawn.map Prefix.cleared)
  | data => data

/-- The type code of a value. -/
def PAttrData.code (data : PAttrData) : UInt8 := PAttr.typeCode ⟨0, data⟩

/-- The bytes of a value without the host bits of its IPv6 prefixes. -/
def clearValue (code : UInt8) (value : Bytes) : Bytes :=
  if (code == 14 || code == 15) && isIpv6Unicast value then
    let header := if code == 14 then 5 + (value.getD 3 0).toNat else 3
    value.take header ++ clearPrefixes (value.drop header).length (value.drop header)
  else value

/-- What is known of a value that was read. -/
structure ValueRead (wide : Bool) (code : UInt8) (value : Bytes) (data : PAttrData) : Prop where
  typed : data.code = code
  legible : data.Legible wide
  cleared : data.cleared = data
  written : writeValue data = clearValue code value
  length : (writeValue data).length = value.length

/-- The type code of a kind that is recognised. -/
def PAttrType.code : PAttrType → UInt8
  | .origin => 1
  | .asPath => 2
  | .nextHop => 3
  | .med => 4
  | .localPref => 5
  | .atomicAggregate => 6
  | .aggregator => 7
  | .community => 8
  | .mpReachIpv6 => 14
  | .mpUnreachIpv6 => 15
  | .as4Path => 17
  | .as4Aggregator => 18
  | .unknown => 0

section Values

variable {wide : Bool} {data : PAttrData} {value : Bytes} {code : UInt8} {size : Nat}
  {segments : List AsPathSegment} {hop rest : Bytes} {length : UInt8}

theorem parseAsPath_gives (legible : ∀ segment ∈ segments, segment.Legible wide) :
    Work.Gives (parseAsPath wide (writeAsPathValue segments wide)) segments := by
  refine (gives_ofExcept (parseSegments_write legible _ ?_)).bind ((gives_ask _).bind (gives_pure _))
  clear legible
  induction segments with
  | nil => exact Nat.zero_le _
  | cons segment rest ih =>
    rw [writeAsPathValue_cons]
    simp only [length_cons, length_append]
    omega

theorem parseUnknown_gives (undecoded : code ∉ decodedCodes) :
    Work.Gives (parseUnknown code value) (.unknown code value undecoded) := by
  rw [parseUnknown, dif_pos undecoded]
  exact (gives_ask _).bind (gives_pure _)

theorem readBe_write {word : UInt32} (small : word.toNat < 256 ^ size) :
    UInt32.ofNat (readBe (write size word.toNat)) = word := by
  rw [readBe_eq, value_write, Nat.mod_eq_of_lt small, UInt32.ofNat_toNat]

theorem readBe_be32 (word : UInt32) : UInt32.ofNat (readBe (be32 word.toNat)) = word := by
  rw [be32_eq]
  exact readBe_write word.toNat_lt

theorem length_asnWrite (asn : UInt32) : (asnWrite wide asn).length = asnSize wide := by
  cases wide <;> rfl

theorem length_addrWrite_32 (addr : BitVec 32) : (addrWrite addr).length = 4 := length_addrWrite (by decide) addr

theorem length_addrWrite_128 (addr : BitVec 128) : (addrWrite addr).length = 16 := length_addrWrite (by decide) addr

/-- The bytes of a value for IPv6 routes that can be reached. -/
theorem parseMpReachIpv6_bytes (length : UInt8) (known : length = 16 ∨ length = 32)
    (size : hop.length = length.toNat) :
    parseMpReachIpv6 code ([0, 2, 1, length] ++ hop ++ [0] ++ rest) = (do
      let nlri ← prefixesParse 128 rest
      pure (.mpReachIpv6 (addrOfBytes 128 (hop.take 16))
        (if length.toNat = 32 then addrOfBytes 128 ((hop.drop 16).take 16) else 0) length.toNat nlri)) := by
  have shape : [0, 2, 1, length] ++ hop ++ [0] ++ rest = 0 :: 2 :: 1 :: length :: (hop ++ 0 :: rest) := by simp
  have long : ¬ (0 :: 2 :: 1 :: length :: (hop ++ 0 :: rest)).length < 5 := by simp; omega
  have few : ¬ (length.toNat ≠ 16 ∧ length.toNat ≠ 32) := by
    rcases known with rfl | rfl <;> decide
  have enough : ¬ (0 :: 2 :: 1 :: length :: (hop ++ 0 :: rest)).length < 5 + length.toNat := by simp; omega
  have reserved : (0 :: 2 :: 1 :: length :: (hop ++ 0 :: rest)).getD (4 + length.toNat) 0 = 0 := by
    rw [Nat.add_comm, ← size]
    simp
  have later : (0 :: 2 :: 1 :: length :: (hop ++ 0 :: rest)).drop (5 + length.toNat) = rest := by
    rw [Nat.add_comm, ← size]
    simp
  have first : ((0 :: 2 :: 1 :: length :: (hop ++ 0 :: rest)).drop 4).take 16 = hop.take 16 := by
    have wide : 16 ≤ hop.length := by rcases known with rfl | rfl <;> rw [size] <;> decide
    exact take_append_of_le_length wide
  have second (double : length.toNat = 32) :
      ((0 :: 2 :: 1 :: length :: (hop ++ 0 :: rest)).drop 20).take 16 = (hop.drop 16).take 16 := by
    have wide : 16 ≤ (hop.drop 16).length := by rw [length_drop]; omega
    show ((hop ++ 0 :: rest).drop 16).take 16 = _
    rw [drop_append_of_le_length (by omega), take_append_of_le_length wide]
  rw [shape, parseMpReachIpv6, if_neg long, if_neg (by exact Bool.false_ne_true)]
  refine (if_neg few).trans ((if_neg enough).trans ((if_neg (not_not_intro reserved)).trans ?_))
  show (do
    let nlri ← prefixesParse 128 (drop (5 + length.toNat) _)
    pure (PAttrData.mpReachIpv6 (addrOfBytes 128 (take 16 (drop 4 _)))
      (if length.toNat = 32 then addrOfBytes 128 (take 16 (drop 20 _)) else 0) length.toNat nlri)) = _
  rw [later, first]
  split
  case isTrue double => rw [second double]
  case isFalse => rfl

/-- A written value is read back. -/
theorem parseValue_gives (legible : data.Legible wide) :
    Work.Gives (parseValue data.code wide (writeValue data)) data.cleared := by
  cases data with
  | origin origin =>
    have known : ¬ 2 < origin := UInt8.not_lt.mpr legible
    exact Work.Gives.check known (gives_pure _)
  | asPath segments is4b | as4Path segments is4b =>
    obtain ⟨rfl, segmentsLegible⟩ := legible
    exact (parseAsPath_gives segmentsLegible).bind (gives_pure _)
  | nextHop nextHop =>
    refine Work.Gives.check (not_not_intro (length_addrWrite_32 nextHop)) (gives_of_eq ?_)
    exact congrArg PAttrData.nextHop (addrOfBytes_addrWrite (by decide) nextHop)
  | med value => exact Work.Gives.check (not_not_intro rfl) (gives_of_eq (congrArg PAttrData.med (readBe_be32 value)))
  | localPref value =>
    exact Work.Gives.check (not_not_intro rfl) (gives_of_eq (congrArg PAttrData.localPref (readBe_be32 value)))
  | atomicAggregate => exact gives_pure _
  | aggregator asn routerId is4b =>
    obtain ⟨rfl, small⟩ := legible
    have size := @length_asnWrite is4b asn
    have written : writeValue (.aggregator asn routerId is4b) = asnWrite is4b asn ++ addrWrite routerId := rfl
    rw [written]
    refine Work.Gives.check (not_not_intro ?_) (gives_of_eq ?_)
    · rw [length_append, size, length_addrWrite_32]
    · rw [take_left' size, drop_left' size, addrOfBytes_addrWrite (by decide), asnWrite_eq, readBe_write small]
      rfl
  | community values =>
    have length := @length_words 4 values
    have read := @read_words 4 [] values fun word _ => word.toNat_lt
    have written : writeValue (.community values) = values.flatMap fun value => write 4 value.toNat :=
      flatMap_congr fun value _ => be32_eq value.toNat
    rw [written]
    refine Work.Gives.check (not_not_intro ?_) ((gives_ask _).bind (gives_of_eq ?_))
    · rw [length, Nat.mul_mod_left]
    · rw [append_nil, row, map_map] at read
      rw [length, Nat.mul_div_cancel _ (by decide)]
      exact congrArg PAttrData.community read
  | as4Aggregator asn routerId is4b =>
    obtain rfl : is4b = true := legible
    have written : writeValue (.as4Aggregator asn routerId true) = be32 asn.toNat ++ addrWrite routerId := rfl
    rw [written]
    refine Work.Gives.check (not_not_intro ?_) (gives_of_eq ?_)
    · rw [length_append, length_addrWrite_32]
      rfl
    · have size : (be32 asn.toNat).length = 4 := rfl
      rw [take_left' size, drop_left' size, addrOfBytes_addrWrite (by decide), readBe_be32]
      rfl
  | mpReachIpv6 nexthop linkLocal nexthopLen nlri =>
    obtain ⟨hops, fits⟩ := legible
    have prefixes := prefixesParse_gives (by decide) (by decide) fits
    have first := length_addrWrite_128 nexthop
    have second := length_addrWrite_128 linkLocal
    rcases hops with ⟨rfl, rfl⟩ | rfl
    · show Work.Gives (parseMpReachIpv6 14 ([0, 2, 1, 16] ++ (addrWrite nexthop ++ addrWrite 0).take 16 ++ [0] ++
        nlri.flatMap prefixWrite)) _
      rw [take_left' first, parseMpReachIpv6_bytes 16 (.inl rfl) first]
      refine prefixes.bind (gives_of_eq ?_)
      rw [take_of_length_le (Nat.le_of_eq first), addrOfBytes_addrWrite (by decide)]
      rfl
    · show Work.Gives (parseMpReachIpv6 14
        ([0, 2, 1, 32] ++ (addrWrite nexthop ++ addrWrite linkLocal).take 32 ++ [0] ++
        nlri.flatMap prefixWrite)) _
      have both : (addrWrite nexthop ++ addrWrite linkLocal).length = 32 := by rw [length_append, first, second]
      rw [take_of_length_le (Nat.le_of_eq both), parseMpReachIpv6_bytes 32 (.inr rfl) both]
      refine prefixes.bind (gives_of_eq ?_)
      rw [take_left' first, drop_left' first, take_of_length_le (Nat.le_of_eq second),
        addrOfBytes_addrWrite (by decide), addrOfBytes_addrWrite (by decide)]
      rfl
  | mpUnreachIpv6 withdrawn =>
    have prefixes := prefixesParse_gives (by decide) (by decide) legible
    exact Work.Gives.check (Nat.not_lt.mpr (Nat.le_add_left 3 _)) (prefixes.bind (gives_pure _))
  | unknown code value undecoded =>
    rcases legible with unknown | ⟨other, ⟨rfl, long⟩ | ⟨rfl, long⟩⟩
    · show Work.Gives (parseValue code wide value) _
      rw [parseValue, unknown]
      exact parseUnknown_gives undecoded
    · show Work.Gives (parseMpReachIpv6 14 value) _
      rw [parseMpReachIpv6, other]
      exact Work.Gives.check (Nat.not_lt.mpr long) (parseUnknown_gives undecoded)
    · show Work.Gives (parseMpUnreachIpv6 15 value) _
      rw [parseMpUnreachIpv6, other]
      exact Work.Gives.check (Nat.not_lt.mpr long) (parseUnknown_gives undecoded)

theorem code_of_type {type : PAttrType} (kind : pattrTypeFromCode code = type) (known : type ≠ .unknown) :
    code = type.code := by
  subst kind
  revert known
  unfold pattrTypeFromCode
  split <;> rename_i number <;> intro known
  case h_13 => exact absurd rfl known
  all_goals exact UInt8.toNat_inj.mp number

/-- A value with nothing to clear. -/
theorem ValueRead.plain (typed : data.code = code) (legible : data.Legible wide) (cleared : data.cleared = data)
    (written : writeValue data = value) (unchanged : clearValue code value = value) : ValueRead wide code value data :=
  ⟨typed, legible, cleared, written.trans unchanged.symm, congrArg List.length written⟩

theorem parseAsPath_yields (yields : Work.Yields (parseAsPath wide value) segments) :
    SegmentsRead wide value segments := by
  obtain ⟨read, parsed, rest⟩ := yields.bind
  obtain ⟨-, -, rest⟩ := rest.bind
  obtain rfl := yields_pure rest
  exact parseSegments_read _ (yields_ofExcept parsed)

theorem parseUnknown_yields (yields : Work.Yields (parseUnknown code value) data) :
    ∃ undecoded, data = .unknown code value undecoded := by
  unfold parseUnknown at yields
  split at yields
  case isTrue undecoded =>
    obtain ⟨-, -, rest⟩ := yields.bind
    exact ⟨undecoded, (yields_pure rest).symm⟩
  case isFalse => exact absurd yields not_yields_throw

theorem readBe_lt (length : value.length = size) : readBe value < 256 ^ size := by
  subst length
  rw [readBe_eq]
  exact value_lt

theorem toNat_readBe (narrow : size ≤ 4) (length : value.length = size) :
    (UInt32.ofNat (readBe value)).toNat = readBe value := by
  have bound : 256 ^ size ≤ 256 ^ 4 := Nat.pow_le_pow_right (by decide) narrow
  exact UInt32.toNat_ofNat_of_lt' (lt_of_lt_of_le (readBe_lt length) bound)

theorem be32_readBe (length : value.length = 4) : be32 (UInt32.ofNat (readBe value)).toNat = value := by
  rw [toNat_readBe le_rfl length, be32_eq, readBe_eq, write_value 4 length]

theorem asnWrite_readBe (length : value.length = asnSize wide) :
    asnWrite wide (UInt32.ofNat (readBe value)) = value := by
  rw [asnWrite_eq]
  dsimp only
  rw [toNat_readBe (asnSize_le wide) length, readBe_eq, write_value _ length]

theorem clearValue_of_unknown (kind : pattrTypeFromCode code = .unknown) : clearValue code value = value := by
  have other : (code == 14 || code == 15) = false := by
    rw [Bool.or_eq_false_iff, beq_eq_false_iff_ne, beq_eq_false_iff_ne]
    constructor <;> rintro rfl <;> cases kind
  rw [clearValue, other]
  rfl

theorem clearValue_of_foreign (foreign : isIpv6Unicast value = false) : clearValue code value = value := by
  rw [clearValue, foreign, Bool.and_false]
  rfl

theorem isIpv6Unicast_iff : isIpv6Unicast value = true ↔ ∃ rest, value = 0 :: 2 :: 1 :: rest := by
  rw [isIpv6Unicast, beq_iff_eq]
  constructor
  · intro same
    exact ⟨value.drop 3, by rw [← take_append_drop 3 value, same]; rfl⟩
  · rintro ⟨rest, rfl⟩
    rfl

/-- The bytes of an attribute for IPv6 routes that can be reached, when it was read. -/
theorem parseMpReachIpv6_shape (unicast : isIpv6Unicast value = true)
    (yields : Work.Yields (parseMpReachIpv6 code value) data) :
    ∃ length hop rest, (length = 16 ∨ length = 32) ∧ hop.length = length.toNat ∧
      value = [0, 2, 1, length] ++ hop ++ [0] ++ rest := by
  obtain ⟨rest, rfl⟩ := isIpv6Unicast_iff.mp unicast
  obtain ⟨long, yields⟩ := yields.check
  obtain ⟨length, rest, rfl⟩ : ∃ length more, rest = length :: more := by
    cases rest with
    | nil => exact absurd (by decide) long
    | cons length more => exact ⟨length, more, rfl⟩
  have yields : Work.Yields (if length.toNat ≠ 16 ∧ length.toNat ≠ 32 then _ else _) _ := yields
  obtain ⟨few, yields⟩ := yields.check
  obtain ⟨enough, yields⟩ := yields.check
  obtain ⟨reserved, -⟩ := yields.check
  have enough : 5 + length.toNat ≤ (0 :: 2 :: 1 :: length :: rest).length := Nat.not_lt.mp enough
  have reserved : (0 :: 2 :: 1 :: length :: rest).getD (4 + length.toNat) 0 = 0 := not_not.mp reserved
  have room : length.toNat < rest.length := by
    simp only [length_cons] at enough
    omega
  have zero : rest[length.toNat] = 0 := by
    rw [Nat.add_comm] at reserved
    rw [← reserved]
    exact (getElem_eq_getD 0).trans rfl
  refine ⟨length, rest.take length.toNat, rest.drop (length.toNat + 1), ?_, ?_, ?_⟩
  · rcases Decidable.em (length.toNat = 16) with same | other
    · exact .inl (UInt8.toNat_inj.mp same)
    · exact .inr (UInt8.toNat_inj.mp (not_not.mp fun same => few ⟨other, same⟩))
  · rw [length_take]
    omega
  · have split := drop_eq_getElem_cons room
    rw [zero] at split
    simp [← split]

/-- The next hop of such an attribute is written as it was read. -/
theorem write_hops (known : length = 16 ∨ length = 32) (size : hop.length = length.toNat) :
    (addrWrite (addrOfBytes 128 (hop.take 16)) ++ addrWrite (if length.toNat = 32 then
      addrOfBytes 128 ((hop.drop 16).take 16) else 0)).take length.toNat = hop := by
  rcases known with rfl | rfl
  · have size : hop.length = 16 := size
    rw [take_of_length_le (Nat.le_of_eq size), addrWrite_addrOfBytes (by decide) size]
    exact take_left' size
  · have size : hop.length = 32 := size
    have first : (hop.take 16).length = 16 := by rw [length_take, size]; rfl
    have second : (hop.drop 16).length = 16 := by rw [length_drop, size]
    rw [if_pos (by decide), take_of_length_le (Nat.le_of_eq second), addrWrite_addrOfBytes (by decide) first,
      addrWrite_addrOfBytes (by decide) second, take_append_drop]
    exact take_of_length_le (Nat.le_of_eq size)

theorem clearValue_reach (size : hop.length = length.toNat) :
    clearValue 14 ([0, 2, 1, length] ++ hop ++ [0] ++ rest) =
      [0, 2, 1, length] ++ hop ++ [0] ++ clearPrefixes rest.length rest := by
  have header : ([0, 2, 1, length] ++ hop ++ [0]).length = 5 + length.toNat := by
    simp [size]
    omega
  show take (5 + length.toNat) _ ++ clearPrefixes (drop (5 + length.toNat) _).length
    (drop (5 + length.toNat) _) = _
  rw [take_left' header, drop_left' header]

/-- What is read is legible, and is written as it was read. -/
theorem parseValue_yields (yields : Work.Yields (parseValue code wide value) data) :
    ValueRead wide code value data := by
  unfold parseValue at yields
  cases kind : pattrTypeFromCode code <;> rw [kind] at yields
  case unknown =>
    obtain ⟨undecoded, rfl⟩ := parseUnknown_yields yields
    exact .plain rfl (.inl kind) rfl rfl (clearValue_of_unknown kind)
  all_goals obtain rfl := code_of_type kind (by decide)
  case origin =>
    obtain ⟨length, yields⟩ := yields.check
    obtain ⟨known, yields⟩ := yields.check
    obtain rfl := yields_pure yields
    obtain ⟨byte, rfl⟩ := length_eq_one_iff.mp (not_not.mp length)
    exact .plain rfl (UInt8.not_lt.mp known) rfl rfl rfl
  case asPath | as4Path =>
    obtain ⟨segments, parsed, rest⟩ := yields.bind
    obtain rfl := yields_pure rest
    have read := parseAsPath_yields parsed
    exact .plain rfl ⟨rfl, read.legible⟩ rfl read.written rfl
  case nextHop =>
    obtain ⟨length, yields⟩ := yields.check
    obtain rfl := yields_pure yields
    exact .plain rfl trivial rfl (addrWrite_addrOfBytes (by decide) (not_not.mp length)) rfl
  case med | localPref =>
    obtain ⟨length, yields⟩ := yields.check
    obtain rfl := yields_pure yields
    exact .plain rfl trivial rfl (be32_readBe (not_not.mp length)) rfl
  case atomicAggregate =>
    obtain ⟨length, yields⟩ := yields.check
    obtain rfl := yields_pure yields
    exact .plain rfl trivial rfl (length_eq_zero_iff.mp (not_not.mp length)).symm rfl
  case aggregator =>
    obtain ⟨length, yields⟩ := yields.check
    obtain rfl := yields_pure yields
    have first : (value.take (asnSize wide)).length = asnSize wide := by
      rw [length_take]
      omega
    have second : (value.drop (asnSize wide)).length = 4 := by
      rw [length_drop]
      omega
    refine .plain rfl ⟨rfl, ?_⟩ rfl ?_ rfl
    · rw [toNat_readBe (asnSize_le wide) first]
      exact readBe_lt first
    · show asnWrite wide _ ++ addrWrite _ = value
      rw [asnWrite_readBe first, addrWrite_addrOfBytes (by decide) second, take_append_drop]
  case community =>
    obtain ⟨whole, yields⟩ := yields.check
    obtain ⟨-, -, rest⟩ := yields.bind
    obtain rfl := yields_pure rest
    have all : value.length / 4 * 4 = value.length := Nat.div_mul_cancel (Nat.dvd_of_mod_eq_zero (not_not.mp whole))
    have words := write_words le_rfl (Nat.le_of_eq all)
    rw [all, take_length, row, map_map] at words
    refine .plain rfl trivial rfl (Eq.trans ?_ words) rfl
    exact flatMap_congr fun word _ => be32_eq word.toNat
  case as4Aggregator =>
    obtain ⟨length, yields⟩ := yields.check
    obtain rfl := yields_pure yields
    have first : (value.take 4).length = 4 := by
      rw [length_take]
      omega
    have second : (value.drop 4).length = 4 := by
      rw [length_drop]
      omega
    refine .plain rfl rfl rfl ?_ rfl
    show be32 _ ++ addrWrite _ = value
    rw [be32_readBe first, addrWrite_addrOfBytes (by decide) second, take_append_drop]
  case mpReachIpv6 =>
    cases unicast : isIpv6Unicast value with
    | false =>
      obtain ⟨long, yields⟩ := yields.check
      rw [unicast] at yields
      obtain ⟨undecoded, rfl⟩ := parseUnknown_yields yields
      exact .plain rfl (.inr ⟨unicast, .inl ⟨rfl, Nat.not_lt.mp long⟩⟩) rfl rfl (clearValue_of_foreign unicast)
    | true =>
      obtain ⟨length, hop, rest, known, size, rfl⟩ := parseMpReachIpv6_shape unicast yields
      have yields : Work.Yields (parseMpReachIpv6 _ _) data := yields
      rw [parseMpReachIpv6_bytes length known size] at yields
      obtain ⟨nlri, parsed, done⟩ := yields.bind
      obtain rfl := yields_pure done
      have read := prefixesParse_yields (by decide) parsed
      have written : writeValue (.mpReachIpv6 (addrOfBytes 128 (hop.take 16))
          (if length.toNat = 32 then addrOfBytes 128 ((hop.drop 16).take 16) else 0) length.toNat nlri) =
          [0, 2, 1, length] ++ hop ++ [0] ++ nlri.flatMap prefixWrite := by
        rw [writeValue, write_hops known size, UInt8.ofNat_toNat]
      refine ⟨rfl, ⟨?_, read.fits⟩, ?_, ?_, ?_⟩
      · rcases known with rfl | rfl
        · exact .inl ⟨rfl, rfl⟩
        · exact .inr rfl
      · exact congrArg (PAttrData.mpReachIpv6 _ _ _) read.cleared
      · rw [written, read.written]
        exact (clearValue_reach size).symm
      · rw [written, length_append, read.length, ← length_append]
  case mpUnreachIpv6 =>
    cases unicast : isIpv6Unicast value with
    | false =>
      obtain ⟨long, yields⟩ := yields.check
      rw [unicast] at yields
      obtain ⟨undecoded, rfl⟩ := parseUnknown_yields yields
      exact .plain rfl (.inr ⟨unicast, .inr ⟨rfl, Nat.not_lt.mp long⟩⟩) rfl rfl (clearValue_of_foreign unicast)
    | true =>
      obtain ⟨rest, rfl⟩ := isIpv6Unicast_iff.mp unicast
      obtain ⟨long, yields⟩ := yields.check
      obtain ⟨withdrawn, parsed, done⟩ := yields.bind
      obtain rfl := yields_pure done
      have read := prefixesParse_yields (by decide) parsed
      refine ⟨rfl, read.fits, congrArg PAttrData.mpUnreachIpv6 read.cleared, ?_, ?_⟩
      · exact congrArg ([0, 2, 1] ++ ·) read.written
      · exact congrArg (· + 3) read.length

end Values

end Libbgp
