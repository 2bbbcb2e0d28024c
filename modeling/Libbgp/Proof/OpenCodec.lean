/-
OPEN messages as bytes: capabilities may come in any number of parameters and are written in one.
-/

import Libbgp.Construction.Open
import Libbgp.Proof.ValueCodec

namespace Libbgp

open Library List Work

/-- The bytes of a capability. -/
def capabilityBytes : Capability → Bytes
  | .asn4b asn => [65, 4] ++ be32 asn.toNat
  | .mpBgp afi safi => [1, 4] ++ be16 afi.toNat ++ [0, safi]
  | .unknown code value => [code, UInt8.ofNat value.length] ++ value

/-- A capability that is written and read again. -/
def Capability.Legible : Capability → Prop
  | .unknown code value => code ≠ 65 ∧ code ≠ 1 ∧ value.length ≤ 255
  | _ => True

/-- A capability that is not recognised has a code of its own. -/
def Capability.Standard : Capability → Prop
  | .unknown code _ => code ≠ 65 ∧ code ≠ 1
  | _ => True

section Capabilities

variable {capability : Capability} {bytes rest : Bytes} {size : Nat}

theorem two_le_capabilityBytes (capability : Capability) : 2 ≤ (capabilityBytes capability).length := by
  cases capability <;> simp [capabilityBytes]

theorem toNat_ofNat_byte {number : Nat} (small : number ≤ 255) : (UInt8.ofNat number).toNat = number := by
  rw [UInt8.toNat_ofNat', Nat.mod_eq_of_lt (show number < 2 ^ 8 by omega)]

/-- What a capability with a given value is read as. -/
theorem capabilityParse_bytes {code size : UInt8} {value : Bytes} (length : value.length = size.toNat) :
    capabilityParse (code :: size :: (value ++ rest)) =
      if code = 65 then
        if size ≠ 4 then throw .badLen else pure (.asn4b (UInt32.ofNat (readBe value)), rest)
      else if code = 1 then
        if size ≠ 4 then throw .badLen
        else pure (.mpBgp (UInt16.ofNat (readBe (value.take 2))) (value.getD 3 0), rest)
      else (do
        ask (if size = 0 then 0 else 1)
        pure (.unknown code value, rest)) := by
  have enough : ¬ (value ++ rest).length < size.toNat := by
    rw [length_append]
    omega
  rw [capabilityParse, if_neg enough, take_left' length, drop_left' length]

/-- A written capability is read back. -/
theorem capabilityParse_gives (legible : capability.Legible) :
    Work.Gives (capabilityParse (capabilityBytes capability ++ rest)) (capability, rest) := by
  cases capability with
  | asn4b asn =>
    show Work.Gives (capabilityParse (65 :: 4 :: (be32 asn.toNat ++ rest))) _
    rw [capabilityParse_bytes rfl, readBe_be32]
    exact gives_pure _
  | mpBgp afi safi =>
    show Work.Gives (capabilityParse (1 :: 4 :: ((be16 afi.toNat ++ [0, safi]) ++ rest))) _
    have read : UInt16.ofNat (readBe (be16 afi.toNat)) = afi := by
      rw [readBe_be16 afi.toNat_lt, UInt16.ofNat_toNat]
    rw [capabilityParse_bytes rfl, take_left' (length_be16 _), read]
    exact gives_pure _
  | unknown code value =>
    obtain ⟨notAsn, notMp, short⟩ := legible
    show Work.Gives (capabilityParse (code :: UInt8.ofNat value.length :: (value ++ rest))) _
    rw [capabilityParse_bytes (toNat_ofNat_byte short).symm, if_neg notAsn, if_neg notMp]
    exact (gives_ask _).bind (gives_pure _)

/-- A capability that was read is legible, and takes as many bytes as it is written with. -/
theorem capabilityParse_yields (yields : Work.Yields (capabilityParse bytes) (capability, rest)) :
    capability.Legible ∧ ∃ own, bytes = own ++ rest ∧ own.length = (capabilityBytes capability).length := by
  obtain ⟨code, size, more, rfl⟩ : ∃ code size more, bytes = code :: size :: more := by
    match bytes, yields with
    | code :: size :: more, _ => exact ⟨code, size, more, rfl⟩
    | [], yields => exact absurd yields not_yields_throw
    | [_], yields => exact absurd yields not_yields_throw
  obtain ⟨enough, -⟩ := yields.check
  have length : (more.take size.toNat).length = size.toNat := length_take_of_le (Nat.not_lt.mp enough)
  have own : (code :: size :: more) = (code :: size :: more.take size.toNat) ++ more.drop size.toNat := by
    rw [cons_append, cons_append, take_append_drop]
  rw [← take_append_drop size.toNat more, capabilityParse_bytes length] at yields
  split at yields
  · obtain ⟨four, yields⟩ := yields.check
    obtain ⟨rfl, rfl⟩ := Prod.mk.inj (yields_pure yields)
    obtain rfl := not_not.mp four
    exact ⟨trivial, _, own, congrArg (· + 2) length⟩
  · rename_i notAsn
    split at yields
    · obtain ⟨four, yields⟩ := yields.check
      obtain ⟨rfl, rfl⟩ := Prod.mk.inj (yields_pure yields)
      obtain rfl := not_not.mp four
      exact ⟨trivial, _, own, congrArg (· + 2) length⟩
    · rename_i notMp
      obtain ⟨-, -, done⟩ := yields.bind
      obtain ⟨rfl, rfl⟩ := Prod.mk.inj (yields_pure done)
      refine ⟨⟨notAsn, notMp, ?_⟩, _, own, rfl⟩
      rw [length]
      exact Nat.le_of_lt_succ size.toNat_lt

theorem capabilityWrite_eq (legible : capability.Legible) (room : (capabilityBytes capability).length ≤ size) :
    capabilityWrite (some capability) size = .ok (capabilityBytes capability) := by
  cases capability with
  | asn4b asn | mpBgp afi safi => exact if_neg (Nat.not_lt.mpr room)
  | unknown code value =>
    have room : value.length + 2 ≤ size := room
    rw [capabilityWrite, if_neg (Nat.not_lt.mpr legible.2.2), if_neg (by omega)]
    rfl

/-- What the encoder accepts is legible. -/
theorem capabilityWrite_ok {stored : Option Capability} (written : capabilityWrite stored size = .ok bytes)
    (standard : ∀ capability, stored = some capability → capability.Standard) :
    ∃ capability : Capability, stored = some capability ∧ capability.Legible ∧ bytes = capabilityBytes capability := by
  cases stored with
  | none => cases written
  | some capability =>
    have fits : capability.Legible := by
      cases capability with
      | asn4b asn | mpBgp afi safi => exact trivial
      | unknown code value =>
        obtain ⟨notAsn, notMp⟩ := standard _ rfl
        refine ⟨notAsn, notMp, Nat.not_lt.mp fun long => ?_⟩
        rw [capabilityWrite, if_pos long] at written
        cases written
    refine ⟨capability, rfl, fits, ?_⟩
    cases capability with
    | asn4b asn | mpBgp afi safi => exact (Except.ok.inj (guard_ok written).2).symm
    | unknown code value => exact (Except.ok.inj (guard_ok (guard_ok written).2).2).symm

end Capabilities

section Lists

variable {list : List Capability} {before after : List (Option Capability)} {bytes : Bytes}

/-- The measured length of capabilities is their wire length. -/
theorem openCapabilitiesLen_eq (legible : ∀ capability ∈ list, capability.Legible) (total : Nat)
    (short : total + (list.flatMap capabilityBytes).length ≤ 255) :
    openCapabilitiesLen (list.map some) total = .ok (total + (list.flatMap capabilityBytes).length) := by
  induction list generalizing total with
  | nil => rfl
  | cons capability rest ih =>
    rw [flatMap_cons, length_append] at short ⊢
    have first := capabilityWrite_eq (legible capability mem_cons_self)
      (show (capabilityBytes capability).length ≤ 512 by omega)
    have room : ¬ (decide (255 < (capabilityBytes capability).length) ||
        decide (255 - (capabilityBytes capability).length < total)) = true := by
      simp only [Bool.or_eq_true, decide_eq_true_eq]
      omega
    rw [map_cons, openCapabilitiesLen, first]
    refine (if_neg room).trans ?_
    rw [ih (fun other member => legible other (mem_cons_of_mem _ member)) _ (by omega), Nat.add_assoc]

/-- The encoder measures capabilities only when none is missing. -/
theorem openCapabilitiesLen_ok {total len : Nat} (measured : openCapabilitiesLen before total = .ok len)
    (standard : ∀ capability, some capability ∈ before → capability.Standard) :
    ∃ list : List Capability, before = list.map some ∧ (∀ capability ∈ list, capability.Legible) ∧
      len = total + (list.flatMap capabilityBytes).length := by
  induction before generalizing total with
  | nil => exact ⟨[], rfl, fun _ member => (nomatch member), (Except.ok.inj measured).symm⟩
  | cons stored rest ih =>
    obtain ⟨one, written, measured⟩ := exists_of_bind measured
    obtain ⟨capability, rfl, legible, rfl⟩ := capabilityWrite_ok written fun capability same =>
      standard capability (same ▸ mem_cons_self)
    split at measured
    case isTrue => cases measured
    case isFalse =>
      obtain ⟨list, rfl, others, rfl⟩ := ih measured fun capability member =>
        standard capability (mem_cons_of_mem _ member)
      refine ⟨capability :: list, rfl, fun other member => ?_, ?_⟩
      · rcases mem_cons.mp member with rfl | inside
        · exact legible
        · exact others other inside
      · rw [flatMap_cons, length_append, Nat.add_assoc]

/-- Legible capabilities are written as their bytes. -/
theorem capabilitiesWrite_eq (legible : ∀ capability ∈ list, capability.Legible) (size : Nat)
    (room : (list.flatMap capabilityBytes).length ≤ size) :
    capabilitiesWrite (list.map some) size = .ok (list.flatMap capabilityBytes) := by
  induction list generalizing size with
  | nil => rfl
  | cons capability rest ih =>
    rw [flatMap_cons, length_append] at room
    have first := capabilityWrite_eq (legible capability mem_cons_self)
      (show (capabilityBytes capability).length ≤ size by omega)
    have later := ih (fun other member => legible other (mem_cons_of_mem _ member))
      (size - (capabilityBytes capability).length) (by omega)
    rw [map_cons, capabilitiesWrite, first]
    show capabilitiesWrite (rest.map some) (size - (capabilityBytes capability).length) >>= _ = _
    rw [later]
    rfl

/-- Written capabilities are read back. -/
theorem openParseCapabilities_gives (legible : ∀ capability ∈ list, capability.Legible) (fuel : Nat)
    (enough : (list.flatMap capabilityBytes).length ≤ fuel) :
    Work.Gives (openParseCapabilities fuel before (list.flatMap capabilityBytes)) (before ++ list.map some) := by
  induction list generalizing before fuel with
  | nil =>
    rw [map_nil, append_nil]
    cases fuel <;> exact gives_pure _
  | cons capability rest ih =>
    have two := two_le_capabilityBytes capability
    rw [flatMap_cons, length_append] at enough
    obtain ⟨fuel, rfl⟩ : ∃ less, fuel = less + 1 := ⟨fuel - 1, by omega⟩
    have nonempty : (capabilityBytes capability ++ rest.flatMap capabilityBytes).isEmpty = false := by
      cases capability <;> rfl
    have others := @ih (before ++ [some capability]) (fun other member => legible other (mem_cons_of_mem _ member))
      fuel (by omega)
    rw [append_assoc] at others
    rw [flatMap_cons, openParseCapabilities, nonempty]
    exact (gives_ask 1).bind ((capabilityParse_gives (legible capability mem_cons_self)).bind
      ((gives_ask 1).bind others))

/-- Capabilities that were read are legible, and take as many bytes as they are written with. -/
theorem openParseCapabilities_yields (fuel : Nat) (enough : bytes.length ≤ fuel)
    (yields : Work.Yields (openParseCapabilities fuel before bytes) after) :
    ∃ list : List Capability, after = before ++ list.map some ∧ (∀ capability ∈ list, capability.Legible) ∧
      (list.flatMap capabilityBytes).length = bytes.length := by
  induction fuel generalizing before bytes with
  | zero =>
    obtain rfl := length_eq_zero_iff.mp (Nat.le_zero.mp enough)
    obtain rfl := yields_pure yields
    exact ⟨[], (append_nil _).symm, fun _ member => (nomatch member), rfl⟩
  | succ fuel ih =>
    rw [openParseCapabilities] at yields
    split at yields
    case isTrue empty =>
      obtain rfl := isEmpty_iff.mp empty
      obtain rfl := yields_pure yields
      exact ⟨[], (append_nil _).symm, fun _ member => (nomatch member), rfl⟩
    case isFalse =>
      obtain ⟨-, -, started⟩ := yields.bind
      obtain ⟨⟨capability, rest⟩, parsed, counted⟩ := started.bind
      obtain ⟨-, -, recursed⟩ := counted.bind
      obtain ⟨legible, own, rfl, size⟩ := capabilityParse_yields parsed
      have two := two_le_capabilityBytes capability
      rw [length_append] at enough
      obtain ⟨list, rfl, others, length⟩ := ih (by omega) recursed
      refine ⟨capability :: list, by simp, fun other member => ?_, ?_⟩
      · rcases mem_cons.mp member with rfl | inside
        · exact legible
        · exact others other inside
      · rw [flatMap_cons, length_append, length_append, length, size]

/-- Capabilities from any number of parameters leave room for one parameter with all of them. -/
theorem openParseOptional_yields (fuel : Nat) (enough : bytes.length ≤ fuel)
    (yields : Work.Yields (openParseOptional fuel before bytes) after) :
    ∃ list : List Capability, after = before ++ list.map some ∧ (∀ capability ∈ list, capability.Legible) ∧
      (list = [] ∨ 2 + (list.flatMap capabilityBytes).length ≤ bytes.length) := by
  fun_induction openParseOptional fuel before bytes with
  | case1 before bytes | case2 fuel before =>
    obtain rfl := yields_pure yields
    exact ⟨[], (append_nil _).symm, fun _ member => (nomatch member), .inl rfl⟩
  | case3 | case4 | case5 => exact absurd yields not_yields_throw
  | case6 fuel before type size rest room known ih =>
    obtain ⟨middle, parsed, recursed⟩ := yields.bind
    have length := length_take_of_le (Nat.not_lt.mp room)
    obtain ⟨first, rfl, firstLegible, firstLength⟩ := openParseCapabilities_yields _ (Nat.le_of_eq length) parsed
    simp only [length_cons] at enough
    obtain ⟨later, rfl, laterLegible, laterLength⟩ := ih _ (by rw [length_drop]; omega) recursed
    refine ⟨first ++ later, by simp, fun capability member => ?_, .inr ?_⟩
    · rcases mem_append.mp member with inside | inside
      · exact firstLegible capability inside
      · exact laterLegible capability inside
    · rw [flatMap_append, length_append, firstLength, length]
      simp only [length_cons]
      rcases laterLength with rfl | laterLength
      · rw [flatMap_nil, length_nil]
        omega
      · rw [length_drop] at laterLength
        omega

end Lists

/-- The first ten bytes of a message. -/
def openFixed (msg : OpenMsg) (optLen : Nat) : Bytes :=
  [msg.version] ++ be16 msg.myAsn.toNat ++ be16 msg.holdTime.toNat ++ be32 (routerIdValue msg.bgpId) ++
    [UInt8.ofNat optLen]

/-- The bytes of a message with the given capabilities. -/
def openBytes (msg : OpenMsg) (list : List Capability) : Bytes :=
  let capabilities := list.flatMap capabilityBytes
  if list = [] then openFixed msg 0
  else openFixed msg (2 + capabilities.length) ++ ([2, UInt8.ofNat capabilities.length] ++ capabilities)

section Messages

variable {msg : OpenMsg} {list : List Capability} {bytes rest : Bytes} {size : Nat}

theorem hostWord_eq (bytes : Bytes) : hostWord (bytes.map UInt8.toNat) = Words.value bytes.reverse := by
  induction bytes with
  | nil => rfl
  | cons byte rest ih =>
    rw [map_cons, hostWord, ih, reverse_cons, Words.value_append]
    simp [Words.value_cons]
    omega

theorem addrBytes_eq {width : Nat} (addr : BitVec width) : addrBytes addr = (addrWrite addr).map UInt8.toNat := by
  rw [addrWrite, map_map]
  refine (map_id _).symm.trans (map_congr_left fun byte member => ?_)
  obtain ⟨position, -, rfl⟩ := mem_map.mp member
  have small : addrByte addr position < 256 := Nat.mod_lt _ (by decide)
  exact (toNat_ofNat_byte (Nat.le_of_lt_succ small)).symm

theorem write_routerId (id : RouterId) : be32 (routerIdValue id) = (addrWrite id).reverse := by
  have length : (addrWrite id).reverse.length = 4 := by rw [length_reverse, length_addrWrite_32]
  rw [routerIdValue, addrBytes_eq, hostWord_eq, be32_eq, Words.write_value 4 length]

theorem length_openFixed (optLen : Nat) : (openFixed msg optLen).length = 10 := rfl

/-- The fixed part of an OPEN is read as it was written. -/
theorem openParse_fixed {optLen : Nat} (short : optLen ≤ 255) (enough : optLen ≤ rest.length) :
    openParse (openFixed msg optLen ++ rest) = (do
      let capabilities ← openParseOptional optLen [] (rest.take optLen)
      pure ({ msg with capabilities := capabilities }, 10 + optLen)) := by
  have long : ¬ (openFixed msg optLen ++ rest).length < openFixedLen := by
    rw [length_append, length_openFixed]
    exact Nat.not_lt.mpr (Nat.le_add_right 10 _)
  have size : ((openFixed msg optLen ++ rest).getD 9 0).toNat = optLen := toNat_ofNat_byte short
  have room : ¬ (openFixed msg optLen ++ rest).length - openFixedLen < optLen := by
    rw [length_append, length_openFixed, openFixedLen]
    omega
  have asn : UInt16.ofNat (readBe (be16 msg.myAsn.toNat)) = msg.myAsn := by
    rw [readBe_be16 msg.myAsn.toNat_lt, UInt16.ofNat_toNat]
  have hold : UInt16.ofNat (readBe (be16 msg.holdTime.toNat)) = msg.holdTime := by
    rw [readBe_be16 msg.holdTime.toNat_lt, UInt16.ofNat_toNat]
  have id : addrOfBytes 32 (be32 (routerIdValue msg.bgpId)).reverse = msg.bgpId := by
    rw [write_routerId, reverse_reverse, addrOfBytes_addrWrite (by decide)]
  rw [openParse, if_neg long, size, if_neg room]
  show (do
    let capabilities ← openParseOptional optLen [] (rest.take optLen)
    pure ((⟨msg.version, UInt16.ofNat (readBe (be16 msg.myAsn.toNat)), UInt16.ofNat (readBe (be16 msg.holdTime.toNat)),
      addrOfBytes 32 (be32 (routerIdValue msg.bgpId)).reverse, capabilities⟩ : OpenMsg), 10 + optLen)) = _
  rw [asn, hold, id]

theorem length_openBytes : (openBytes msg list).length =
    if list = [] then 10 else 12 + (list.flatMap capabilityBytes).length := by
  unfold openBytes
  split
  · rfl
  · simp only [length_append, length_openFixed, length_cons, length_nil]
    omega

/-- A written message is read back. -/
theorem openParse_gives (legible : ∀ capability ∈ list, capability.Legible)
    (short : list = [] ∨ 2 + (list.flatMap capabilityBytes).length ≤ 255) (stored : msg.capabilities = list.map some) :
    Work.Gives (openParse (openBytes msg list)) (msg, (openBytes msg list).length) := by
  rw [length_openBytes, openBytes]
  split
  case isTrue empty =>
    subst empty
    have parsed := @openParse_fixed msg [] 0 (by decide) le_rfl
    rw [append_nil] at parsed
    rw [parsed]
    refine (gives_pure []).bind (gives_of_eq ?_)
    rw [← show msg.capabilities = [] from stored]
  case isFalse some =>
    have short := short.resolve_left some
    have all := Nat.le_of_eq (show ([2, UInt8.ofNat (list.flatMap capabilityBytes).length] ++
      list.flatMap capabilityBytes).length = 2 + (list.flatMap capabilityBytes).length from Nat.add_comm _ 2)
    have size : (UInt8.ofNat (list.flatMap capabilityBytes).length).toNat = (list.flatMap capabilityBytes).length :=
      toNat_ofNat_byte (by omega)
    have capabilities := @openParseCapabilities_gives list [] legible _ le_rfl
    rw [openParse_fixed short (Nat.le_of_eq (Nat.add_comm 2 _)), take_of_length_le all]
    have parameter : Work.Gives (openParseOptional (2 + (list.flatMap capabilityBytes).length) []
        ([2, UInt8.ofNat (list.flatMap capabilityBytes).length] ++ list.flatMap capabilityBytes))
          (list.map Option.some) := by
      rw [Nat.add_comm 2]
      show Work.Gives (openParseOptional (_ + 1) [] (2 :: UInt8.ofNat _ :: list.flatMap capabilityBytes)) _
      rw [openParseOptional, size, take_length, drop_length]
      refine Work.Gives.check (Nat.lt_irrefl _) (Work.Gives.check (not_not_intro rfl) (capabilities.bind ?_))
      exact gives_pure _
    refine parameter.bind (gives_of_eq ?_)
    rw [← stored]
    exact congrArg (Prod.mk msg) (by omega)

theorem two_le_capabilities (some : list ≠ []) : 2 ≤ (list.flatMap capabilityBytes).length := by
  obtain ⟨first, later, rfl⟩ := exists_cons_of_ne_nil some
  rw [flatMap_cons, length_append]
  exact Nat.le_add_right_of_le (two_le_capabilityBytes first)

/-- An OPEN with legible capabilities is written as its bytes. -/
theorem openWrite_eq (version : msg.version = 4) (legible : ∀ capability ∈ list, capability.Legible)
    (short : list = [] ∨ 2 + (list.flatMap capabilityBytes).length ≤ 255)
    (stored : msg.capabilities = list.map some) (room : (openBytes msg list).length ≤ size) :
    openWrite msg size = .ok (openBytes msg list) := by
  have measured : openCapabilitiesLen msg.capabilities 0 = .ok (list.flatMap capabilityBytes).length := by
    rw [stored, openCapabilitiesLen_eq legible 0, Nat.zero_add]
    rcases short with rfl | short
    · exact Nat.zero_le _
    · omega
  rw [length_openBytes] at room
  rw [openWrite, if_neg (not_not_intro version), measured, openBytes]
  split at room
  case isTrue empty =>
    subst empty
    exact (if_neg (Nat.not_lt.mpr room)).trans rfl
  case isFalse some =>
    have short := short.resolve_left some
    have filled : (list.flatMap capabilityBytes).length ≠ 0 := by
      have two := two_le_capabilities some
      omega
    have optLen : (if (list.flatMap capabilityBytes).length ≠ 0 then 2 + (list.flatMap capabilityBytes).length else 0) =
        2 + (list.flatMap capabilityBytes).length := if_pos filled
    have written := capabilitiesWrite_eq legible _ le_rfl
    rw [← stored] at written
    have fits : ¬ size < openFixedLen + (2 + (list.flatMap capabilityBytes).length) := by
      rw [openFixedLen]
      omega
    show (if 255 < (if (list.flatMap capabilityBytes).length ≠ 0 then _ else 0) then _ else _) = _
    rw [optLen, if_neg (Nat.not_lt.mpr short), if_neg fits, if_neg filled, written, if_neg some]
    exact congrArg Except.ok (append_assoc _ _ _)

/-- Every accepted message of version 4 is encoded in no more bytes than it came with, and is read back. -/
theorem openParse_reencoded {used : Nat} (accepted : (openParse bytes).outcome = .ok (msg, used))
    (version : msg.version = 4) :
    ∃ written : Bytes, written.length ≤ used ∧ (∀ size, written.length ≤ size → openWrite msg size = .ok written) ∧
      (openParse written).outcome = .ok (msg, written.length) := by
  have yields := Work.Yields.ofOutcome accepted
  obtain ⟨long, yields⟩ := yields.check
  obtain ⟨room, yields⟩ := yields.check
  obtain ⟨capabilities, parsed, done⟩ := yields.bind
  obtain ⟨rfl, rfl⟩ := Prod.mk.inj (yields_pure done)
  have size : ((bytes.drop openFixedLen).take (bytes.getD 9 0).toNat).length = (bytes.getD 9 0).toNat := by
    refine length_take_of_le ?_
    rw [length_drop]
    omega
  obtain ⟨list, stored, legible, fits⟩ := openParseOptional_yields _ (Nat.le_of_eq size) parsed
  rw [nil_append] at stored
  rw [size] at fits
  have short : list = [] ∨ 2 + (list.flatMap capabilityBytes).length ≤ 255 :=
    fits.imp id fun fits => le_trans fits (Nat.le_of_lt_succ (bytes.getD 9 0).toNat_lt)
  refine ⟨openBytes _ list, ?_, fun size room => openWrite_eq version legible short stored room,
    (openParse_gives legible short stored).outcome⟩
  rw [length_openBytes, openFixedLen]
  split
  case isTrue => omega
  case isFalse some =>
    have fits := fits.resolve_left some
    omega

/-- What the encoder accepts. -/
theorem openWrite_ok (standard : ∀ capability, some capability ∈ msg.capabilities → capability.Standard)
    (written : openWrite msg size = .ok bytes) :
    bytes.length ≤ size ∧ Work.Gives (openParse bytes) (msg, bytes.length) := by
  have done := written
  obtain ⟨version, rest⟩ := guard_ok written
  obtain ⟨capsLen, measured, rest⟩ := exists_of_bind rest
  obtain ⟨short, rest⟩ := guard_ok rest
  obtain ⟨room, -⟩ := guard_ok rest
  obtain ⟨list, stored, legible, rfl⟩ := openCapabilitiesLen_ok measured standard
  rw [Nat.zero_add] at short room
  have short : list = [] ∨ 2 + (list.flatMap capabilityBytes).length ≤ 255 := by
    rcases Decidable.em (list = []) with empty | some
    · exact .inl empty
    · have two := two_le_capabilities some
      rw [if_pos (by omega)] at short
      exact .inr (Nat.not_lt.mp short)
  have fits : (openBytes msg list).length ≤ size := by
    rw [length_openBytes]
    rw [openFixedLen] at room
    split
    case isTrue => omega
    case isFalse some =>
      have two := two_le_capabilities some
      rw [if_pos (by omega)] at room
      omega
  rw [openWrite_eq (not_not.mp version) legible short stored fits] at done
  obtain rfl := Except.ok.inj done
  exact ⟨fits, openParse_gives legible short stored⟩

/-- The two directions of the OPEN codec. -/
theorem open_codec :
    (∀ bytes msg used, (openParse bytes).outcome = .ok (msg, used) → msg.version = 4 →
      ∃ written : Bytes, written.length ≤ used ∧ (∀ size, written.length ≤ size → openWrite msg size = .ok written) ∧
        (openParse written).outcome = .ok (msg, written.length)) ∧
    ∀ msg size written, (∀ capability, some capability ∈ msg.capabilities → capability.Standard) →
      openWrite msg size = .ok written → (openParse written).outcome = .ok (msg, written.length) :=
  ⟨fun _ _ _ => openParse_reencoded, fun _ _ _ standard written => (openWrite_ok standard written).2.outcome⟩

/-- Capabilities in three parameters, one of them empty. -/
def sampleOpenBytes : Bytes :=
  [4, 0x5b, 0xa0, 0, 90, 10, 0, 0, 1, 20, 2, 6, 65, 4, 0, 1, 0x11, 0x70, 2, 0, 2, 8, 1, 4, 0, 2, 7, 1, 70, 0]

theorem open_codec_sample : ∃ msg : OpenMsg, (openParse sampleOpenBytes).outcome = .ok (msg, 30) ∧ ∃ written : Bytes,
    written.length ≤ 30 ∧ openWrite msg 4096 = .ok written ∧
      (openParse written).outcome = .ok (msg, written.length) := by
  have accepted : (openParse sampleOpenBytes).outcome = .ok (⟨4, 23456, 90, 0x0100000a,
      [some (.asn4b 70000), some (.mpBgp 2 1), some (.unknown 70 [])]⟩, 30) := rfl
  obtain ⟨written, short, encoded, parsed⟩ := open_codec.1 _ _ _ accepted rfl
  have encoded := encoded 4096 (le_trans short (by decide))
  refine ⟨_, accepted, written, short, encoded, open_codec.2 _ _ _ (fun capability stored => ?_) encoded⟩
  simp only [mem_cons, Option.some.injEq, not_mem_nil, or_false] at stored
  rcases stored with rfl | rfl | rfl
  · exact trivial
  · exact trivial
  · exact ⟨by decide, by decide⟩

end Messages

end Libbgp
