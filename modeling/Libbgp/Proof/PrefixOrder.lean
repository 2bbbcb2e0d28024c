/-
Inclusion of prefixes is inclusion of the addresses that they cover.
-/

import Libbgp.Construction.PrefixCalls
import Libbgp.Construction.StoredWire
import Libbgp.Library.HighBits
import Libbgp.Proof.Bytes
import Mathlib.Order.Antisymmetrization

namespace Libbgp

open Library List
open Library.HighBits (Agree)

section Bytes

variable {width len : Nat} {first more bytes : Bytes}

theorem modify_append_of_lt {place : Nat} (inside : place < first.length) (change : UInt8 → UInt8) :
    (first ++ more).modify place change = first.modify place change ++ more := by
  induction first generalizing place with
  | nil => exact absurd inside (Nat.not_lt_zero _)
  | cons byte first ih =>
    cases place with
    | zero => rfl
    | succ place => exact congrArg (byte :: ·) (ih (Nat.lt_of_succ_lt_succ inside))

/-- The byte that a mask changes is the last byte of the prefix. -/
theorem maskLast_append (length : first.length = prefixOctets len) :
    maskLast len (first ++ more) = maskLast len first ++ more := by
  rw [maskLast, maskLast]
  split_ifs with whole
  · rfl
  · have inside : prefixOctets len - 1 < first.length := by
      rw [length, prefixOctets]
      omega
    exact modify_append_of_lt inside _

theorem take_maskLast (enough : prefixOctets len ≤ bytes.length) :
    (maskLast len bytes).take (prefixOctets len) = maskLast len (bytes.take (prefixOctets len)) := by
  have length : (bytes.take (prefixOctets len)).length = prefixOctets len := length_take_of_le enough
  have split := @maskLast_append len (bytes.take (prefixOctets len)) (bytes.drop (prefixOctets len)) length
  rw [take_append_drop] at split
  rw [split, take_left' (by rw [length_maskLast, length])]

theorem addrOfBytes_padded (fits : bytes.length ≤ width / 8) :
    addrOfBytes width (bytes ++ replicate (width / 8 - bytes.length) 0) = addrOfBytes width bytes := by
  rw [addrOfBytes, addrOfBytes, length_append, length_replicate, Nat.add_sub_of_le fits, Nat.sub_self,
    replicate_zero, append_nil]

/-- Masking the bytes of a whole address keeps its prefix and clears the rest. -/
theorem prefix6MaskAddr_eq (length : bytes.length = 16) (fits : len ≤ 128) :
    prefix6MaskAddr bytes len =
      maskLast len (bytes.take (prefixOctets len)) ++ replicate (16 - prefixOctets len) 0 := by
  have few : prefixOctets len ≤ bytes.length := by
    rw [length, prefixOctets]
    omega
  by_cases none : len = 0
  · subst none
    rfl
  simp only [prefix6MaskAddr, if_neg none]
  split_ifs with short
  · rw [take_maskLast few]
  · have all : prefixOctets len = bytes.length := by omega
    rw [all, take_length, length, Nat.sub_self, replicate_zero, append_nil]

/-- The check for an empty prefix makes no difference, a prefix without bytes is not masked. -/
theorem maskLast_checked : (if prefixOctets len = 0 then bytes else maskLast len bytes) = maskLast len bytes := by
  split_ifs with none
  · have whole : len % 8 = 0 := by
      rw [prefixOctets] at none
      omega
    rw [maskLast, if_pos whole]
  · rfl

theorem addrOfBytes_prefix4 (fits : len ≤ 32) (length : first.length = prefixOctets len) :
    addrOfBytes 32 (if prefixOctets len = 0 then first ++ replicate (4 - prefixOctets len) 0
      else maskLast len (first ++ replicate (4 - prefixOctets len) 0)) = addrOfBytes 32 (maskLast len first) := by
  have few := prefixOctets_le (by decide : 8 ∣ 32) fits
  have padded := @addrOfBytes_padded 32 (maskLast len first) (by rwa [length_maskLast, length])
  rw [length_maskLast, length] at padded
  rw [maskLast_checked, maskLast_append length]
  exact padded

theorem addrOfBytes_prefix6 (fits : len ≤ 128) (length : first.length = prefixOctets len) :
    addrOfBytes 128 (if prefixOctets len = 0 then first ++ replicate (16 - prefixOctets len) 0
      else prefix6MaskAddr (first ++ replicate (16 - prefixOctets len) 0) len) =
      addrOfBytes 128 (maskLast len first) := by
  have few := prefixOctets_le (by decide : 8 ∣ 128) fits
  have padded := @addrOfBytes_padded 128 (maskLast len first) (by rwa [length_maskLast, length])
  rw [length_maskLast, length] at padded
  have whole : (first ++ replicate (16 - prefixOctets len) 0).length = 16 := by
    rw [length_append, length_replicate, length]
    omega
  have masked : prefix6MaskAddr (first ++ replicate (16 - prefixOctets len) 0) len =
      maskLast len first ++ replicate (16 - prefixOctets len) 0 := by
    rw [prefix6MaskAddr_eq whole fits, take_left' length]
  split_ifs with none
  · have bare : maskLast len first = first := by
      have whole : len % 8 = 0 := by
        rw [prefixOctets] at none
        omega
      rw [maskLast, if_pos whole]
    rw [bare] at padded ⊢
    exact padded
  · rw [masked]
    exact padded

end Bytes

section Calls

variable {width : Nat} {pfx : Prefix width} {len : Nat} (bytes : Bytes)

/-- What both parsers have in common. -/
def countedParse (width : Nat) : Bytes → Except Fault (Prefix width × Nat)
  | [] => .error .badLen
  | cidr :: rest =>
    let octets := prefixOctets cidr.toNat
    if width < cidr.toNat then .error .invalid
    else if rest.length < octets then .error .badLen
    else .ok (⟨addrOfBytes width (maskLast cidr.toNat (rest.take octets)), cidr.toNat⟩, 1 + octets)

theorem prefix4Parse_eq : prefix4Parse bytes = countedParse 32 bytes := by
  cases bytes with
  | nil => rfl
  | cons cidr rest =>
    simp only [countedParse, prefix4Parse]
    refine ite_congr rfl (fun _ => rfl) fun large => ite_congr rfl (fun _ => rfl) fun short => ?_
    rw [addrOfBytes_prefix4 (Nat.le_of_not_lt large) (length_take_of_le (Nat.le_of_not_lt short))]

theorem prefix6Parse_eq : prefix6Parse bytes = countedParse 128 bytes := by
  cases bytes with
  | nil => rfl
  | cons cidr rest =>
    simp only [countedParse, prefix6Parse]
    refine ite_congr rfl (fun _ => rfl) fun large => ite_congr rfl (fun _ => rfl) fun short => ?_
    rw [addrOfBytes_prefix6 (Nat.le_of_not_lt large) (length_take_of_le (Nat.le_of_not_lt short))]

/-- The parser of the message codec drops the bytes that this one counts. -/
theorem countedParse_work : prefixParse width bytes =
    Work.ofExcept ((countedParse width bytes).map fun (pfx, consumed) => (pfx, bytes.drop consumed)) := by
  cases bytes with
  | nil => rfl
  | cons cidr rest =>
    simp only [prefixParse, countedParse]
    split_ifs with large short
    · rfl
    · rfl
    · rw [Except.map, Nat.add_comm, drop_succ_cons]
      rfl

theorem countedParse_consumed {bytes : Bytes} {consumed : Nat}
    (parsed : countedParse width bytes = .ok (pfx, consumed)) : consumed = 1 + prefixOctets pfx.len := by
  cases bytes with
  | nil => cases parsed
  | cons cidr rest =>
    simp only [countedParse] at parsed
    split_ifs at parsed with large short
    cases parsed
    rfl

/-- A written prefix is read back masked, and exactly its own bytes are consumed. -/
theorem countedParse_written (whole : 8 ∣ width) (small : width < 256) (fits : pfx.len ≤ width) (rest : Bytes) :
    countedParse width (prefixWrite pfx ++ rest) = .ok (pfx.cleared, (prefixWrite pfx).length) := by
  have read := @prefixParse_gives width rest whole small pfx fits
  rw [countedParse_work] at read
  rcases parsed : countedParse width (prefixWrite pfx ++ rest) with fault | ⟨got, consumed⟩
  · rw [parsed] at read
    cases read 0
  · rw [parsed] at read
    obtain ⟨rfl, -⟩ := Prod.mk.inj (Except.ok.inj (read 0))
    rw [countedParse_consumed parsed, length_prefixWrite whole fits]
    rfl

theorem prefix4Write_eq (pfx : Prefix 32) (size : Nat) : prefix4Write pfx size = prefixWriteWithin pfx size := by
  simp only [prefix4Write, prefixWriteWithin, maskLast_checked]
  refine ite_congr rfl (fun _ => rfl) fun large => ite_congr rfl (fun _ => rfl) fun _ => ?_
  have few := prefixOctets_le (by decide : 8 ∣ 32) (Nat.le_of_not_lt large)
  have whole := length_addrWrite (by decide : 8 ∣ 32) pfx.addr
  rw [take_maskLast (by rwa [whole]), prefixWrite_eq]

/-- `prefix6_write` writes a prefix as the common encoder does. -/
theorem prefix6Write_eq (pfx : Prefix 128) (size : Nat) : prefix6Write pfx size = prefixWriteWithin pfx size := by
  simp only [prefix6Write, prefixWriteWithin]
  refine ite_congr rfl (fun _ => rfl) fun large => ite_congr rfl (fun _ => rfl) fun _ => ?_
  have fits := Nat.le_of_not_lt large
  have few := prefixOctets_le (by decide : 8 ∣ 128) fits
  have whole := length_addrWrite (by decide : 8 ∣ 128) pfx.addr
  have taken : (maskLast pfx.len ((addrWrite pfx.addr).take (prefixOctets pfx.len))).length =
      prefixOctets pfx.len := by
    rw [length_maskLast, length_take_of_le (by rwa [whole])]
  rw [prefix6MaskAddr_eq whole fits, take_left' taken, prefixWrite_eq]

/-- The masked bytes of an address are the bytes of the masked prefix. -/
theorem addrOfBytes_prefix6MaskAddr (fits : len ≤ 128) (addr : BitVec 128) :
    addrOfBytes 128 (prefix6MaskAddr (addrWrite addr) len) = (⟨addr, len⟩ : Prefix 128).cleared.addr := by
  have wide : 8 ∣ 128 := by decide
  have few := prefixOctets_le wide fits
  have whole := length_addrWrite wide addr
  have taken : ((addrWrite addr).take (prefixOctets len)).length = prefixOctets len :=
    length_take_of_le (by rwa [whole])
  have low : len ≤ 8 * prefixOctets len := by
    rw [prefixOctets]
    omega
  have padded := @addrOfBytes_padded 128 (maskLast len ((addrWrite addr).take (prefixOctets len)))
    (by rwa [length_maskLast, taken])
  rw [length_maskLast, taken] at padded
  have value := value_prefixBytes wide (⟨addr, len⟩ : Prefix 128) fits
  rw [prefix6MaskAddr_eq whole fits]
  refine padded.trans (BitVec.eq_of_toNat_eq ?_)
  rw [toNat_addrOfBytes_maskLast wide fits taken, value, toNat_cleared, Nat.div_div_eq_div_mul, ← pow_add]
  congr 3
  dsimp only
  omega

theorem length_prefix6MaskAddr (fits : len ≤ 128) (addr : BitVec 128) :
    (prefix6MaskAddr (addrWrite addr) len).length = 16 := by
  have wide : 8 ∣ 128 := by decide
  have few := prefixOctets_le wide fits
  have whole := length_addrWrite wide addr
  rw [prefix6MaskAddr_eq whole fits, length_append, length_maskLast, length_take_of_le (by rwa [whole]),
    length_replicate]
  omega

end Calls

section Inclusion

variable {width len : Nat} {left right : List Nat}

/-- Masked addresses are equal exactly when the bits before the length agree. -/
theorem cleared_eq_iff (fits : len ≤ width) {left right : BitVec width} :
    (⟨left, len⟩ : Prefix width).cleared.addr = (⟨right, len⟩ : Prefix width).cleared.addr ↔
      Agree len left right :=
  HighBits.eq_iff_agree (fun word => (word >>> (width - len)) <<< (width - len)) fits
    fun word bit _ => HighBits.getMsbD_shift fits word bit

theorem mask_eq_iff (family : AddrFamily) (fits : len ≤ family.width) {left right : BitVec family.width} :
    left &&& family.cidrToMask len = right &&& family.cidrToMask len ↔ Agree len left right :=
  HighBits.eq_iff_agree (fun word => word &&& family.cidrToMask len) fits fun word bit within => by
    rw [BitVec.getMsbD_and, family.mask_getMsbD len fits bit within]

/-- The masks of both families compare the bits before the length. -/
theorem includes_eq_true_iff (family : AddrFamily) {outer inner : Prefix family.width} (fits : outer.len ≤ family.width)
    (innerFits : inner.len ≤ family.width) :
    outer.includes family inner = true ↔ outer.len ≤ inner.len ∧ Agree outer.len inner.addr outer.addr := by
  rw [Prefix.includes, if_neg (by simp; omega)]
  split_ifs with shorter
  · simp only [false_iff, not_and]
    intro longer
    omega
  · rw [beq_iff_eq, mask_eq_iff family fits]
    exact ⟨fun agree => ⟨Nat.le_of_not_lt shorter, agree⟩, And.right⟩

/-- Masked addresses are equal when their network bits agree. -/
theorem prefix6MaskAddr_eq_iff {len : Nat} (fits : len ≤ 128) {left right : BitVec 128} :
    prefix6MaskAddr (addrWrite left) len = prefix6MaskAddr (addrWrite right) len ↔ Agree len left right := by
  rw [← cleared_eq_iff fits, ← addrOfBytes_prefix6MaskAddr fits, ← addrOfBytes_prefix6MaskAddr fits]
  constructor
  · intro same
    rw [same]
  · intro same
    have wide : 8 ∣ 128 := by decide
    have bytes := congrArg addrWrite same
    rwa [addrWrite_addrOfBytes wide (length_prefix6MaskAddr fits _),
      addrWrite_addrOfBytes wide (length_prefix6MaskAddr fits _)] at bytes

/-- Comparing the masked bytes is comparing the masked words. -/
theorem prefix6Includes_eq (outer inner : Prefix 128) : prefix6Includes outer inner = outer.includes ipv6 inner := by
  unfold prefix6Includes Prefix.includes
  refine ite_congr rfl (fun _ => rfl) fun valid => ite_congr rfl (fun _ => rfl) fun _ => ?_
  have fits : outer.len ≤ 128 := by
    simp only [Bool.or_eq_true, decide_eq_true_eq, not_or] at valid
    exact Nat.le_of_not_lt valid.1
  have masks : inner.addr &&& cidr6ToMask outer.len = outer.addr &&& cidr6ToMask outer.len ↔
      Agree outer.len inner.addr outer.addr := mask_eq_iff ipv6 fits
  have bytes := (@prefix6MaskAddr_eq_iff outer.len fits outer.addr inner.addr).trans
    (show Agree outer.len outer.addr inner.addr ↔ Agree outer.len inner.addr outer.addr from ⟨Agree.symm, Agree.symm⟩)
  change _ = (inner.addr &&& cidr6ToMask outer.len == outer.addr &&& cidr6ToMask outer.len)
  rw [Bool.eq_iff_iff, beq_iff_eq, beq_iff_eq, bytes, masks]

/-- The lowest byte of two words is masked apart from the rest. -/
theorem and_lowByte {low mask high highMask : Nat} (small : low < 256) (maskSmall : mask < 256) :
    (low + 256 * high) &&& (mask + 256 * highMask) = (low &&& mask) + 256 * (high &&& highMask) := by
  have lower : ((low + 256 * high) &&& (mask + 256 * highMask)) % 2 ^ 8 = low &&& mask := by
    rw [Nat.and_mod_two_pow]
    congr 1 <;> omega
  have upper : ((low + 256 * high) &&& (mask + 256 * highMask)) / 2 ^ 8 = high &&& highMask := by
    rw [Nat.and_div_two_pow]
    congr 1 <;> omega
  omega

theorem hostWord_and (length : left.length = right.length) (bytes : ∀ byte ∈ left, byte < 256)
    (masks : ∀ byte ∈ right, byte < 256) :
    hostWord left &&& hostWord right = hostWord (zipWith (· &&& ·) left right) := by
  induction left generalizing right with
  | nil => exact Nat.zero_and _
  | cons low left ih =>
    cases right with
    | nil => cases length
    | cons mask right =>
      rw [hostWord, hostWord, and_lowByte (bytes low (by simp)) (masks mask (by simp)),
        ih (Nat.succ.inj length) (fun byte member => bytes byte (mem_cons_of_mem _ member))
          fun byte member => masks byte (mem_cons_of_mem _ member)]
      rfl

/-- A word determines its octets. -/
theorem hostWord_injective (length : left.length = right.length) (bytes : ∀ byte ∈ left, byte < 256)
    (others : ∀ byte ∈ right, byte < 256) (same : hostWord left = hostWord right) : left = right := by
  induction left generalizing right with
  | nil => exact (length_eq_zero_iff.mp length.symm).symm
  | cons low left ih =>
    cases right with
    | nil => cases length
    | cons other right =>
      have first := bytes low (by simp)
      have second := others other (by simp)
      rw [hostWord, hostWord] at same
      have tails := @ih right (Nat.succ.inj length) (fun byte member => bytes byte (mem_cons_of_mem _ member))
        (fun byte member => others byte (mem_cons_of_mem _ member)) (by omega)
      rw [tails] at same ⊢
      congr 1
      omega

theorem addrBytes_lt (addr : BitVec width) : ∀ byte ∈ addrBytes addr, byte < 256 := by
  intro byte member
  obtain ⟨position, -, rfl⟩ := mem_map.mp member
  exact Nat.mod_lt _ (by decide)

theorem addrBytes_and (addr mask : BitVec width) :
    addrBytes (addr &&& mask) = zipWith (· &&& ·) (addrBytes addr) (addrBytes mask) := by
  rw [addrBytes, addrBytes, addrBytes, zipWith_map, zipWith_self]
  refine map_congr_left fun position _ => ?_
  rw [addrByte, addrByte, addrByte, BitVec.toNat_and, Nat.shiftRight_and_distrib]
  exact Nat.and_mod_two_pow (n := 8)

namespace ByteOrder

variable {width : Nat}

/-- On either host the masked words are the words of the masked address. -/
theorem load_and (order : ByteOrder) (addr mask : BitVec width) :
    order.load (addrBytes addr) &&& order.load (addrBytes mask) = order.load (addrBytes (addr &&& mask)) := by
  have length : (addrBytes addr).length = (addrBytes mask).length := by simp [addrBytes]
  rw [addrBytes_and]
  cases order with
  | little => exact hostWord_and length (addrBytes_lt addr) (addrBytes_lt mask)
  | big =>
    rw [load, load, load, reverse_zipWith length]
    refine hostWord_and (by simpa using length) ?_ ?_
    · exact fun byte member => addrBytes_lt addr byte (mem_reverse.mp member)
    · exact fun byte member => addrBytes_lt mask byte (mem_reverse.mp member)

/-- A load in either byte order is injective. -/
theorem load_eq_iff (order : ByteOrder) (whole : 8 ∣ width) {left right : BitVec width} :
    order.load (addrBytes left) = order.load (addrBytes right) ↔ left = right := by
  constructor
  · intro same
    have bytes : addrBytes left = addrBytes right := by
      have length : (addrBytes left).length = (addrBytes right).length := by simp [addrBytes]
      cases order with
      | little => exact hostWord_injective length (addrBytes_lt left) (addrBytes_lt right) same
      | big =>
        refine reverse_injective (hostWord_injective (by simpa using length) ?_ ?_ same)
        · exact fun byte member => addrBytes_lt left byte (mem_reverse.mp member)
        · exact fun byte member => addrBytes_lt right byte (mem_reverse.mp member)
    rw [← addrOfBytes_addrWrite whole left, addrWrite, bytes, ← addrWrite, addrOfBytes_addrWrite whole]
  · rintro rfl
    rfl

end ByteOrder

/-- The words of the host compare as the addresses do. -/
theorem prefix4Includes_eq (order : ByteOrder) (outer inner : Prefix 32) :
    prefix4Includes order outer inner = outer.includes ipv4 inner := by
  unfold prefix4Includes Prefix.includes
  refine ite_congr rfl (fun _ => rfl) fun valid => ite_congr rfl (fun _ => rfl) fun _ => ?_
  have fits : ¬ outer.len > 32 := by
    simp only [Bool.or_eq_true, decide_eq_true_eq, not_or] at valid
    exact valid.1
  change _ = (inner.addr &&& cidr4ToMask outer.len == outer.addr &&& cidr4ToMask outer.len)
  have mask : order.cidrToMask outer.len = order.load (addrBytes (cidr4ToMask outer.len)) := by
    rw [ByteOrder.cidrToMask, cidr4ToMask, if_neg fits, if_neg fits]
  rw [Bool.eq_iff_iff, beq_iff_eq, beq_iff_eq, mask, order.load_and, order.load_and, order.load_eq_iff (by decide)]

theorem prefixIncludes_eq (order : ByteOrder) (af : Af) (outer inner : Prefix af.family.width) :
    af.prefixIncludes order outer inner = outer.includes af.family inner := by
  cases af with
  | ipv4 => exact prefix4Includes_eq order outer inner
  | ipv6 => exact prefix6Includes_eq outer inner

end Inclusion

/-- A prefix of a length that its family has. -/
@[ext] structure ValidPrefix (af : Af) where
  pfx : Prefix af.family.width
  fits : pfx.len ≤ af.family.width

namespace ValidPrefix

variable {af : Af} (order : ByteOrder)

/-- The addresses that begin with the bits of the prefix. -/
def covered (pfx : ValidPrefix af) : Set (BitVec af.family.width) :=
  { addr | ∀ bit < pfx.pfx.len, addr.getMsbD bit = pfx.pfx.addr.getMsbD bit }

/-- The prefix with every bit after its length cleared. -/
def masked (pfx : ValidPrefix af) : ValidPrefix af := ⟨pfx.pfx.cleared, pfx.fits⟩

theorem includes_iff (outer inner : ValidPrefix af) :
    af.prefixIncludes order outer.pfx inner.pfx = true ↔
      outer.pfx.len ≤ inner.pfx.len ∧ Agree outer.pfx.len inner.pfx.addr outer.pfx.addr := by
  rw [prefixIncludes_eq, includes_eq_true_iff af.family outer.fits inner.fits]

theorem includes_iff_subset (outer inner : ValidPrefix af) :
    af.prefixIncludes order outer.pfx inner.pfx = true ↔ inner.covered ⊆ outer.covered := by
  rw [includes_iff]
  exact (HighBits.block_subset_iff outer.fits).symm

/-- Prefixes that include each other are the same prefix after masking. -/
theorem includes_both_iff (left right : ValidPrefix af) :
    (af.prefixIncludes order left.pfx right.pfx = true ∧ af.prefixIncludes order right.pfx left.pfx = true) ↔
      left.masked = right.masked := by
  obtain ⟨⟨leftAddr, leftLen⟩, leftFits⟩ := left
  obtain ⟨⟨rightAddr, rightLen⟩, rightFits⟩ := right
  rw [includes_iff, includes_iff]
  constructor
  · rintro ⟨⟨shorter, agree⟩, longer, -⟩
    obtain rfl : leftLen = rightLen := Nat.le_antisymm shorter longer
    refine ValidPrefix.ext (congrArg (fun addr => Prefix.mk addr leftLen) ?_)
    exact (cleared_eq_iff leftFits).mpr agree.symm
  · intro same
    have prefixes := congrArg ValidPrefix.pfx same
    obtain rfl : leftLen = rightLen := congrArg Prefix.len prefixes
    have agree := (cleared_eq_iff leftFits).mp (congrArg Prefix.addr prefixes)
    exact ⟨⟨le_rfl, agree.symm⟩, le_rfl, agree⟩

/-- A prefix that fits into the buffer is written, and reading consumes what was written. -/
theorem written_read (pfx : ValidPrefix af) {size : Nat} (room : 1 + prefixOctets pfx.pfx.len ≤ size) :
    ∃ bytes, af.prefixWrite pfx.pfx size = .ok bytes ∧ bytes.length = 1 + prefixOctets pfx.pfx.len ∧
      ∀ rest, af.prefixParse (bytes ++ rest) = .ok (pfx.masked.pfx, bytes.length) := by
  have fits := pfx.fits
  have length := length_prefixWrite af.family.wholeBytes fits
  have written : prefixWriteWithin pfx.pfx size = .ok (prefixWrite pfx.pfx) := by
    rw [prefixWriteWithin, if_neg (Nat.not_lt.mpr fits), if_neg (Nat.not_lt.mpr room)]
  refine ⟨prefixWrite pfx.pfx, ?_, length, fun rest => ?_⟩
  · cases af with
    | ipv4 => exact (prefix4Write_eq pfx.pfx size).trans written
    | ipv6 => exact (prefix6Write_eq pfx.pfx size).trans written
  · have narrow : af.family.width < 256 := by cases af <;> decide
    have parsed := countedParse_written af.family.wholeBytes narrow fits rest
    cases af with
    | ipv4 => exact (prefix4Parse_eq _).trans parsed
    | ipv6 => exact (prefix6Parse_eq _).trans parsed

end ValidPrefix

/-- On a host of either byte order, inclusion of valid prefixes is inclusion of their addresses. It is a
preorder, its equivalence is equality after masking, and writing and reading a prefix masks it. -/
theorem prefix_inclusion_and_codec (order : ByteOrder) (af : Af) :
    (∀ outer inner : ValidPrefix af, af.prefixIncludes order outer.pfx inner.pfx = true ↔
      inner.covered ⊆ outer.covered) ∧
    IsPreorder (ValidPrefix af) (fun outer inner => af.prefixIncludes order outer.pfx inner.pfx = true) ∧
    (∀ left right : ValidPrefix af,
      AntisymmRel (fun outer inner : ValidPrefix af => af.prefixIncludes order outer.pfx inner.pfx = true) left right ↔
        left.masked = right.masked) ∧
    (∀ (pfx : ValidPrefix af) (size : Nat), 1 + prefixOctets pfx.pfx.len ≤ size →
      ∃ bytes, af.prefixWrite pfx.pfx size = .ok bytes ∧ bytes.length = 1 + prefixOctets pfx.pfx.len ∧
        ∀ rest, af.prefixParse (bytes ++ rest) = .ok (pfx.masked.pfx, bytes.length)) := by
  refine ⟨ValidPrefix.includes_iff_subset order, ?_, ValidPrefix.includes_both_iff order,
    fun pfx size room => pfx.written_read room⟩
  refine @IsPreorder.mk _ _ ⟨fun pfx => ?_⟩ ⟨fun outer middle inner first second => ?_⟩
  · rw [ValidPrefix.includes_iff_subset]
  · rw [ValidPrefix.includes_iff_subset] at first second ⊢
    exact second.trans first

end Libbgp
