/-
The connection between two speakers: the loop that sends a packet in pieces, and the byte stream that comes of it.
-/

import Libbgp.Construction.Sink

namespace Libbgp

/-- `out_handler_impl_t`: a file descriptor, or operations of which the sending one may be missing. -/
structure OutHandler where
  fd : Int
  ops : Option Bool

/-- The operation that sends is there. -/
def OutHandler.usable (handler : OutHandler) : Bool := handler.ops.getD (0 ≤ handler.fd)

/-- `libbgp_out_handler_send` of at least one byte, with the answer of the operation or of `send`. -/
def OutHandler.send (handler : OutHandler) (answer : Int) : Except Err Nat :=
  if !handler.usable then .error .invalid else if answer < 0 then .error .write else .ok answer.toNat

/-- The loop of `fsm_send_packet`, with the bytes that the connection took. Each round gets one answer; a connection
without further answers takes everything, and one that claims more than it was offered took nothing of it. -/
def sendBytes (handler : OutHandler) : List Int → Bytes → Err × Bytes
  | _, [] => (.ok, [])
  | [], bytes => if handler.usable then (.ok, bytes) else (.invalid, [])
  | answer :: answers, bytes =>
    match handler.send answer with
    | .error err => (err, [])
    | .ok sent =>
      if sent = 0 ∨ bytes.length < sent then (.write, [])
      else
        let (err, wire) := sendBytes handler answers (bytes.drop sent)
        (err, bytes.take sent ++ wire)

/-- `fsm_send_packet` -/
def sendPacket (handler : Option OutHandler) (answers : List Int) (packet : WirePacket) : Err × Bytes :=
  match handler with
  | none => (.invalid, [])
  | some handler =>
    match packetWrite packet bgpMaxPacketLen with
    | .error fault => (fault.1, [])
    | .ok bytes => sendBytes handler answers bytes

/-- The packets that a session sends one after another until a send fails: those that were sent, and the bytes that
are on the connection. -/
def transmit (handler : Option OutHandler) : List (WirePacket × List Int) → List WirePacket × Bytes
  | [] => ([], [])
  | (packet, answers) :: rest =>
    match sendPacket handler answers packet with
    | (.ok, wire) =>
      let (sent, stream) := transmit handler rest
      (packet :: sent, wire ++ stream)
    | (_, wire) => ([], wire)

end Libbgp
