/-
OPEN messages and their capabilities as bytes.
-/

import Libbgp.Construction.Session
import Libbgp.Construction.Wire

namespace Libbgp

def Fault.badType : Fault := ⟨.badType, by decide⟩

/-- `libbgp_capability_parse`, with the bytes that are left. -/
def capabilityParse : Bytes → Work (Capability × Bytes)
  | code :: size :: rest =>
    let value := rest.take size.toNat
    let rest' := rest.drop size.toNat
    if rest.length < size.toNat then throw .badLen
    else if code = 65 then
      if size ≠ 4 then throw .badLen else pure (.asn4b (UInt32.ofNat (readBe value)), rest')
    else if code = 1 then
      if size ≠ 4 then throw .badLen
      else pure (.mpBgp (UInt16.ofNat (readBe (value.take 2))) (value.getD 3 0), rest')
    else do
      Work.ask (if size = 0 then 0 else 1)
      pure (.unknown code value, rest')
  | _ => throw .badLen

/-- `open_parse_capabilities`: the capabilities that fill the given bytes, after those from before. Each
takes two bytes at least, so the number of bytes bounds the recursion. -/
def openParseCapabilities : Nat → List (Option Capability) → Bytes → Work (List (Option Capability))
  | 0, before, _ => pure before
  | fuel + 1, before, bytes =>
    if bytes.isEmpty then pure before
    else do
      Work.ask 1
      let (capability, rest) ← capabilityParse bytes
      Work.ask 1
      openParseCapabilities fuel (before ++ [some capability]) rest

/-- `open_parse_optional`: all optional parameters have to be capabilities. -/
def openParseOptional : Nat → List (Option Capability) → Bytes → Work (List (Option Capability))
  | 0, before, _ => pure before
  | _ + 1, before, [] => pure before
  | _ + 1, _, [_] => throw .badLen
  | fuel + 1, before, type :: size :: rest =>
    if rest.length < size.toNat then throw .badLen
    else if type ≠ 2 then throw .badType
    else do
      let before ← openParseCapabilities size.toNat before (rest.take size.toNat)
      openParseOptional fuel before (rest.drop size.toNat)

def openFixedLen : Nat := 10

/-- `libbgp_open_parse`, with the number of bytes that were consumed. The identifier is kept as a host
integer, whose bytes in memory have the other order. -/
def openParse (bytes : Bytes) : Work (OpenMsg × Nat) :=
  if bytes.length < openFixedLen then throw .badLen
  else
    let optLen := (bytes.getD 9 0).toNat
    if bytes.length - openFixedLen < optLen then throw .badLen
    else do
      let capabilities ← openParseOptional optLen [] ((bytes.drop openFixedLen).take optLen)
      pure (⟨bytes.getD 0 0, UInt16.ofNat (readBe ((bytes.drop 1).take 2)),
        UInt16.ofNat (readBe ((bytes.drop 3).take 2)),
        addrOfBytes 32 ((bytes.drop 5).take 4).reverse, capabilities⟩, openFixedLen + optLen)

/-- `libbgp_capability_write` into a buffer of the given size. -/
def capabilityWrite (capability : Option Capability) (size : Nat) : Except Fault Bytes :=
  match capability with
  | none => .error .badLen
  | some (.asn4b asn) => if size < 6 then .error .buffer else .ok ([65, 4] ++ be32 asn.toNat)
  | some (.mpBgp afi safi) => if size < 6 then .error .buffer else .ok ([1, 4] ++ be16 afi.toNat ++ [0, safi])
  | some (.unknown code value) =>
    if 255 < value.length then .error .badLen
    else if size < 2 + value.length then .error .buffer
    else .ok ([code, UInt8.ofNat value.length] ++ value)

/-- `open_capabilities_len`, which writes every capability to a scratch buffer of 512 bytes. -/
def openCapabilitiesLen : List (Option Capability) → (total : Nat) → Except Fault Nat
  | [], total => .ok total
  | capability :: rest, total => do
      let one ← capabilityWrite capability 512
      if 255 < one.length || 255 - one.length < total then .error .badLen
      else openCapabilitiesLen rest (total + one.length)

/-- The capabilities one after the other, in the room that is left. -/
def capabilitiesWrite : List (Option Capability) → Nat → Except Fault Bytes
  | [], _ => .ok []
  | capability :: rest, size => do
      let first ← capabilityWrite capability size
      let more ← capabilitiesWrite rest (size - first.length)
      .ok (first ++ more)

/-- `libbgp_open_write` into a buffer of the given size. -/
def openWrite (msg : OpenMsg) (size : Nat) : Except Fault Bytes :=
  if msg.version ≠ 4 then .error .badLen
  else do
    let capsLen ← openCapabilitiesLen msg.capabilities 0
    let optLen := if capsLen ≠ 0 then 2 + capsLen else 0
    if 255 < optLen then .error .badLen
    else if size < openFixedLen + optLen then .error .buffer
    else
      let fixed := [msg.version] ++ be16 msg.myAsn.toNat ++ be16 msg.holdTime.toNat ++ be32 (routerIdValue msg.bgpId) ++
        [UInt8.ofNat optLen]
      if capsLen = 0 then .ok fixed
      else do
        let capabilities ← capabilitiesWrite msg.capabilities capsLen
        .ok (fixed ++ [2, UInt8.ofNat capsLen] ++ capabilities)

end Libbgp
