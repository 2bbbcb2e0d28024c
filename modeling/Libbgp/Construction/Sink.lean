/-
The sink: bytes of a stream go in, packets come out.
-/

import Libbgp.Construction.Packet
import Libbgp.Library.Circular
import Libbgp.Library.Window

namespace Libbgp

open Library

/-- The size of a `libbgp_packet_t`. -/
def packetSize : Nat := 80

/-- `sink_impl_t`: the buffered bytes within their block, and the queue of packets. -/
structure Sink where
  buf : Window UInt8
  packets : Circular WirePacket
  wide : Bool

namespace Sink

/-- `libbgp_sink_init_as4` -/
def init (wide : Bool) : Sink := ⟨.empty, .empty, wide⟩

def bufCap (sink : Sink) : Nat := sink.buf.block.length

def packetCap (sink : Sink) : Nat := sink.packets.slots.length

/-- The capacity is doubled until it is large enough; that takes less than 64 steps. -/
def doubleTo : Nat → (cap required : Nat) → Option Nat
  | 0, cap, required => if cap < required then none else some cap
  | fuel + 1, cap, required =>
    if cap < required then
      if sizeMax / 2 < cap then none else doubleTo fuel (cap * 2) required
    else some cap

/-- The end of `sink_reserve_buf`: a larger block. The new bytes are not read before they are written. -/
def growBuf (sink : Sink) (needed : Nat) (alloc : Allocator) : Bool × Sink × Allocator :=
  let off := sink.buf.start
  if 0 < off ∧ sizeMax - off < needed then (false, sink, alloc)
  else
    let required := off + needed
    let first := if sink.bufCap = 0 then bgpHeaderLen else if sizeMax / 2 < sink.bufCap then required
      else sink.bufCap * 2
    match doubleTo 64 first required with
    | none => (false, sink, alloc)
    | some cap =>
      match alloc.request with
      | (true, alloc) => (true, { sink with buf := sink.buf.extend (List.replicate (cap - sink.bufCap) 0) }, alloc)
      | (false, alloc) => (false, sink, alloc)

/-- `sink_reserve_buf` -/
def reserveBuf (sink : Sink) (len : Nat) (alloc : Allocator) : Bool × Sink × Allocator :=
  let off := sink.buf.start
  let needed := sink.buf.size + len
  if sizeMax - sink.buf.size < len then (false, sink, alloc)
  else if sink.bufCap < off ∨ sink.bufCap - off < sink.buf.size then (false, sink, alloc)
  else if len ≤ sink.bufCap - off - sink.buf.size then (true, sink, alloc)
  else if 0 < off ∧ sink.bufCap / 2 ≤ off then
    let sink := { sink with buf := sink.buf.compact }
    if len ≤ sink.bufCap - sink.buf.size then (true, sink, alloc) else sink.growBuf needed alloc
  else if 0 < off ∧ needed ≤ sink.bufCap then (true, { sink with buf := sink.buf.compact }, alloc)
  else sink.growBuf needed alloc

/-- `sink_reserve_packets` -/
def reservePackets (sink : Sink) (needed : Nat) (alloc : Allocator) : Bool × Sink × Allocator :=
  if needed ≤ sink.packetCap then (true, sink, alloc)
  else
    match doubleTo 64 (if sink.packetCap = 0 then 4 else sink.packetCap * 2) needed with
    | none => (false, sink, alloc)
    | some cap =>
      if sizeMax / packetSize < cap then (false, sink, alloc)
      else
        match alloc.request with
        | (true, alloc) => (true, { sink with packets := sink.packets.resize cap }, alloc)
        | (false, alloc) => (false, sink, alloc)

/-- The bytes that wait for the rest of their packet. -/
def buffered (sink : Sink) : Bytes := sink.buf.view

/-- `sink_drop_buffer_prefix` -/
def dropFrame (sink : Sink) (len : Nat) : Sink := { sink with buf := sink.buf.dropFront len }

/-- Everything that is buffered is given up. -/
def dropAll (sink : Sink) : Sink := { sink with buf := ⟨sink.buf.block, 0, 0⟩ }

/-- `sink_process_locked`. Each turn takes a header's length of bytes at least, so the number of bytes
bounds the recursion. -/
def process : Nat → Sink → Allocator → Err × Sink × Allocator
  | 0, sink, alloc => (.ok, sink, alloc)
  | fuel + 1, sink, alloc =>
    let bytes := sink.buffered
    let wireLen := wireLength bytes
    if sink.buf.size < bgpHeaderLen then (.ok, sink, alloc)
    else if bytes.take 16 ≠ bgpMarker then (.badLen, sink.dropAll, alloc)
    else if wireLen < bgpHeaderLen ∨ bgpMaxPacketLen < wireLen then (.badLen, sink.dropAll, alloc)
    else if sink.buf.size < wireLen then (.ok, sink, alloc)
    else
      match sink.reservePackets (sink.packets.count + 1) alloc with
      | (false, sink, alloc) => (.nomem, sink, alloc)
      | (true, sink, alloc) =>
        let (outcome, requests) := (packetParseAs4 sink.wide (bytes.take wireLen)).run.run 0
        match alloc.requests requests, outcome with
        | (false, alloc), _ => (.nomem, sink.dropFrame wireLen, alloc)
        | (true, alloc), .error fault => (fault.1, sink.dropFrame wireLen, alloc)
        | (true, alloc), .ok (packet, consumed) =>
          if consumed ≠ wireLen then (.badLen, sink.dropFrame wireLen, alloc)
          else process fuel ({ sink with packets := sink.packets.push packet }.dropFrame wireLen) alloc

/-- `libbgp_sink_feed` -/
def feed (sink : Sink) (data : Bytes) (alloc : Allocator) : Err × Sink × Allocator :=
  if data.length = 0 then (.ok, sink, alloc)
  else
    match sink.reserveBuf data.length alloc with
    | (false, sink, alloc) => (.nomem, sink, alloc)
    | (true, sink, alloc) =>
      let sink := { sink with buf := sink.buf.append data }
      process sink.buf.size sink alloc

/-- `libbgp_sink_pop` -/
def pop (sink : Sink) : Err × Option WirePacket × Sink :=
  if sink.packets.count = 0 then (.notFound, none, sink)
  else
    let (packet, packets) := sink.packets.pop
    (.ok, packet, { sink with packets := packets })

end Sink

/-- A call on a sink. -/
inductive SinkOp where
  | feed (data : Bytes)
  | pop

/-- A sink with the results of its feeds and the packets that were taken out. -/
structure SinkRun where
  sink : Sink
  alloc : Allocator
  results : List Err
  popped : List WirePacket

namespace SinkRun

def init (wide : Bool) (alloc : Allocator) : SinkRun := ⟨.init wide, alloc, [], []⟩

def step (run : SinkRun) : SinkOp → SinkRun
  | .feed data =>
    let (err, sink, alloc) := run.sink.feed data run.alloc
    { run with sink := sink, alloc := alloc, results := run.results ++ [err] }
  | .pop =>
    let (_, packet, sink) := run.sink.pop
    { run with sink := sink, popped := run.popped ++ packet.toList }

def steps (run : SinkRun) (ops : List SinkOp) : SinkRun := ops.foldl step run

end SinkRun

end Libbgp
