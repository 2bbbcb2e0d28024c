/-
Whole packets as bytes: the header, the five kinds of bodies, and what a session does with received bytes.
-/

import Libbgp.Construction.Api
import Libbgp.Construction.Open

namespace Libbgp

open Library

/-- `libbgp_packet_t` -/
inductive WirePacket where
  | opening (msg : OpenMsg)
  | update (msg : UpdateMsg)
  | notification (code subcode : UInt8) (data : Bytes)
  | keepalive
  | unknown (rawType : UInt8) (body : Bytes)

/-- What a session looks at in a packet. -/
def WirePacket.toPacket : WirePacket → Packet
  | .opening msg => .opening msg
  | .update msg => .update msg
  | .notification _ _ _ => .notification
  | .keepalive => .keepalive
  | .unknown _ _ => .unknown

def bgpMarker : Bytes := List.replicate 16 0xff

/-- The length field of a header. -/
def wireLength (bytes : Bytes) : Nat := readBe ((bytes.drop 16).take 2)

/-- `libbgp_notification_parse` -/
def notificationParse (body : Bytes) : Work WirePacket :=
  if body.length < 2 then throw .badLen
  else do
    Work.ask (if body.length = 2 then 0 else 1)
    pure (.notification (body.getD 0 0) (body.getD 1 0) (body.drop 2))

/-- The body of a packet. Only the OPEN parser can leave bytes over, which is an error. -/
def packetParseBody (wide : Bool) (rawType : UInt8) (body : Bytes) : Work WirePacket :=
  match rawType.toNat with
  | 1 => do
      let (msg, used) ← openParse body
      if used ≠ body.length then throw .badLen else pure (.opening msg)
  | 2 => do
      let msg ← updateParseAs4 wide body
      pure (.update msg)
  | 3 => notificationParse body
  | 4 => if body.length ≠ 0 then throw .badLen else pure .keepalive
  | _ => do
      Work.ask (if body.isEmpty then 0 else 1)
      pure (.unknown rawType body)

/-- `libbgp_packet_parse_as4`, with the number of bytes that were consumed. -/
def packetParseAs4 (wide : Bool) (bytes : Bytes) : Work (WirePacket × Nat) :=
  if bytes.length < bgpHeaderLen then throw .badLen
  else if bytes.take 16 ≠ bgpMarker then throw .badLen
  else if wireLength bytes < bgpHeaderLen ∨ bgpMaxPacketLen < wireLength bytes ∨ bytes.length < wireLength bytes then
    throw .badLen
  else do
    let packet ← packetParseBody wide (bytes.getD 18 0)
      ((bytes.drop bgpHeaderLen).take (wireLength bytes - bgpHeaderLen))
    pure (packet, wireLength bytes)

/-- `packet_write_body`, with the type byte. -/
def packetWriteBody (packet : WirePacket) (size : Nat) : Except Fault (UInt8 × Bytes) :=
  match packet with
  | .opening msg => do
      let body ← openWrite msg size
      .ok (1, body)
  | .update msg => do
      let body ← updateWrite msg size
      .ok (2, body)
  | .notification code subcode data =>
    if size < 2 + data.length then .error .buffer else .ok (3, [code, subcode] ++ data)
  | .keepalive => .ok (4, [])
  | .unknown rawType body => if size < body.length then .error .buffer else .ok (rawType, body)

/-- A raw body that no packet has room for. -/
def WirePacket.tooLong : WirePacket → Bool
  | .unknown _ body => bgpMaxPacketLen - bgpHeaderLen < body.length
  | _ => false

/-- `libbgp_packet_write` into a buffer that has room for the header at least. -/
def packetWrite (packet : WirePacket) (size : Nat) : Except Fault Bytes :=
  if packet.tooLong then .error .badLen
  else do
    let (rawType, body) ← packetWriteBody packet (min (size - bgpHeaderLen) (bgpMaxPacketLen - bgpHeaderLen))
    .ok (bgpMarker ++ be16 (bgpHeaderLen + body.length) ++ [rawType] ++ body)

/-- `packet_parse_map_body_error`: the NOTIFICATION for a body that is not accepted. -/
def bodyNotification (rawType : UInt8) (err : Err) : UInt8 × UInt8 :=
  match rawType.toNat with
  | 1 => (2, if err = .badType then 4 else 0)
  | 2 => (3, if err = .invalid then 3 else 1)
  | _ => (1, 2)

/-- The part of `bgp_packet_parse_as4_detail` that is about a caller who wants the NOTIFICATION: types that
are not known are errors too. -/
def packetFault (bytes : Bytes) (err : Err) : UInt8 × UInt8 :=
  if bytes.length < bgpHeaderLen then (1, 2)
  else if bytes.take 16 ≠ bgpMarker then (1, 1)
  else if wireLength bytes < bgpHeaderLen ∨ bgpMaxPacketLen < wireLength bytes ∨ bytes.length < wireLength bytes then
    (1, 2)
  else bodyNotification (bytes.getD 18 0) err

/-- What the received bytes mean to a session that reads AS numbers of the given width. -/
def rawCall (wide : Bool) (bytes : Bytes) : Nat × Call :=
  match (packetParseAs4 wide bytes).run.run 0 with
  | (.error fault, requests) =>
    let (code, subcode) := packetFault bytes fault.1
    (requests, .malformed fault.1 code subcode)
  | (.ok (.unknown _ _, _), _) => (0, .malformed .badType 1 3)
  | (.ok (packet, used), requests) =>
    if used ≠ bytes.length then (requests, .malformed .badLen 1 2) else (requests, .packet packet.toPacket)

/-- The width of AS numbers that a session expects. -/
def Fsm.rawWide (fsm : Fsm) : Bool :=
  if fsm.state = .established then fsm.peer4byteAsn else fsm.params.config.enable4byteAsn

/-- `libbgp_fsm_on_raw_packet` -/
def Sys.onRawPacket (code : MessageCode) (sys : Sys) (index : Nat) (bytes : Bytes) : Err × Sys :=
  let (requests, call) := rawCall (sys.fsm index).rawWide bytes
  match sys.alloc.requests requests with
  | (true, alloc) => Sys.perform code { sys with alloc := alloc } index call
  | (false, alloc) => (.nomem, { sys with alloc := alloc })

end Libbgp
