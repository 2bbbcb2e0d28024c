/-
What is sent on a connection arrives: the send loop, the packet codec and the sink together.
-/

import Libbgp.Construction.Channel
import Libbgp.Proof.Forwarded
import Libbgp.Proof.Sink

namespace Libbgp

open Library

variable {wide : Bool} {handler : OutHandler} {packet : WirePacket} {bytes : Bytes}

/-- A packet that a receiver with this width of AS numbers tells from all others by its bytes. -/
def WirePacket.Readable (wide : Bool) : WirePacket → Prop
  | .opening msg => ∀ capability, some capability ∈ msg.capabilities → capability.Standard
  | .update msg => ∀ attr, some attr ∈ msg.attrs → attr.data.OfWidth wide ∧ attr.data.Faithful
  | .unknown rawType _ => 4 < rawType.toNat ∨ rawType = 0
  | _ => True

/-- The packet as it comes out of its bytes. -/
def WirePacket.normal : WirePacket → WirePacket
  | .update msg => .update msg.normal
  | packet => packet

/-- The bytes of a packet are one frame, which is read as that packet. -/
theorem packetWrite_parses (readable : packet.Readable wide)
    (written : packetWrite packet bgpMaxPacketLen = .ok bytes) : Parses wide bytes packet.normal := by
  obtain ⟨fits, written⟩ := Work.guard_ok written
  obtain ⟨⟨rawType, body⟩, encoded, framed⟩ := Work.exists_of_bind written
  obtain rfl : frame rawType body = bytes := Except.ok.inj framed
  have read : body.length ≤ bgpMaxPacketLen - bgpHeaderLen ∧
      Work.Gives (packetParseBody wide rawType body) packet.normal := by
    rw [Nat.min_self] at encoded
    cases packet with
    | opening msg =>
      obtain ⟨body, opened, rest⟩ := Work.exists_of_bind encoded
      obtain ⟨rfl, rfl⟩ := Prod.mk.inj (Except.ok.inj rest)
      obtain ⟨short, parsed⟩ := openWrite_ok readable opened
      exact ⟨short, parsed.bind (Work.Gives.check (not_not_intro rfl) (Work.gives_pure _))⟩
    | update msg =>
      obtain ⟨body, updated, rest⟩ := Work.exists_of_bind encoded
      obtain ⟨rfl, rfl⟩ := Prod.mk.inj (Except.ok.inj rest)
      obtain ⟨legible, rfl, short⟩ := updateWrite_legible (fun attr stored => (readable attr stored).1)
        (fun attr stored => (readable attr stored).2) updated
      exact ⟨short, legible.parse.bind (Work.gives_pure _)⟩
    | notification code subcode data =>
      obtain ⟨room, rest⟩ := Work.guard_ok encoded
      obtain ⟨rfl, rfl⟩ := Prod.mk.inj (Except.ok.inj rest)
      refine ⟨by simp only [List.length_append, List.length_cons, List.length_nil]; omega, ?_⟩
      exact Work.Gives.check (by simp) ((Work.gives_ask _).bind (Work.gives_pure _))
    | keepalive =>
      obtain ⟨rfl, rfl⟩ := Prod.mk.inj (Except.ok.inj encoded)
      exact ⟨Nat.zero_le _, Work.gives_pure _⟩
    | unknown other raw =>
      obtain ⟨room, rest⟩ := Work.guard_ok encoded
      obtain ⟨rfl, rfl⟩ := Prod.mk.inj (Except.ok.inj rest)
      refine ⟨Nat.le_of_not_lt room, ?_⟩
      have kind : packetParseBody wide other raw = (do
          Work.ask (if raw.isEmpty then 0 else 1)
          pure (.unknown other raw)) := by
        unfold packetParseBody
        split <;> first | rfl | (rename_i known; rcases readable with large | rfl <;> simp_all)
      rw [kind]
      exact (Work.gives_ask _).bind (Work.gives_pure _)
  obtain ⟨short, gives⟩ := read
  have whole : bgpHeaderLen + body.length ≤ bgpMaxPacketLen := by
    rw [bgpHeaderLen, bgpMaxPacketLen] at *
    omega
  rw [Parses, packetParseAs4_frame whole, length_frame]
  exact Work.Gives.outcome (gives.bind (Work.gives_pure _))

/-- The connection takes the front part of the bytes, and all of them exactly if the loop succeeds. -/
theorem sendBytes_takes (handler : OutHandler) (answers : List Int) (bytes : Bytes) :
    ∃ rest, bytes = (sendBytes handler answers bytes).2 ++ rest ∧
      ((sendBytes handler answers bytes).1 = .ok ↔ rest = []) := by
  fun_induction sendBytes handler answers bytes with
  | case1 => exact ⟨[], rfl, by simp⟩
  | case2 bytes some usable => exact ⟨[], by simp, by simp⟩
  | case3 bytes some unusable => exact ⟨bytes, rfl, by simpa using some⟩
  | case4 answer answers bytes some err failed =>
    have wrong : err ≠ .ok := by grind [OutHandler.send]
    exact ⟨bytes, rfl, by simpa [wrong] using some⟩
  | case5 answer answers bytes some sent accepted wrong => exact ⟨bytes, rfl, by simpa using some⟩
  | case6 answer answers bytes some sent accepted right err wire later ih =>
    rw [later] at ih
    obtain ⟨rest, split, done⟩ := ih
    exact ⟨rest, by rw [List.append_assoc, ← split, List.take_append_drop], done⟩

/-- A packet is sent as one frame, or only a part of its frame is. -/
theorem sendPacket_cases (handler : Option OutHandler) (answers : List Int) (readable : packet.Readable wide) :
    (∃ frame, sendPacket handler answers packet = (.ok, frame) ∧ Parses wide frame packet.normal) ∨
    ∃ err part, err ≠ .ok ∧ sendPacket handler answers packet = (err, part) ∧ Incomplete part := by
  have nothing : Incomplete [] := .inl (by decide)
  cases handler with
  | none => exact .inr ⟨.invalid, [], by decide, rfl, nothing⟩
  | some handler =>
    rcases written : packetWrite packet bgpMaxPacketLen with fault | bytes
    · exact .inr ⟨fault.1, [], fault.2, by simp only [sendPacket, written], nothing⟩
    · have read := packetWrite_parses readable written
      obtain ⟨rest, split, done⟩ := sendBytes_takes handler answers bytes
      simp only [sendPacket, written]
      generalize sendBytes handler answers bytes = result at split done ⊢
      obtain ⟨err, part⟩ := result
      subst split
      by_cases whole : err = .ok
      · subst whole
        rw [done.mp rfl, List.append_nil] at read
        exact .inl ⟨part, rfl, read⟩
      · exact .inr ⟨err, part, whole, rfl, read.cut fun empty => whole (done.mpr empty)⟩

/-- The stream of a connection consists of the frames of the packets that were sent, and of a part of the next one. -/
theorem transmit_frames (handler : Option OutHandler) (packets : List (WirePacket × List Int))
    (readable : ∀ send ∈ packets, send.1.Readable wide) :
    ∃ frames tail, (transmit handler packets).2 = frames.flatten ++ tail ∧ Incomplete tail ∧
      List.Forall₂ (Parses wide) frames ((transmit handler packets).1.map WirePacket.normal) := by
  induction packets with
  | nil => exact ⟨[], [], rfl, .inl (by decide), .nil⟩
  | cons send rest ih =>
    obtain ⟨packet, answers⟩ := send
    obtain ⟨now, later⟩ := List.forall_mem_cons.mp readable
    rcases sendPacket_cases handler answers now with ⟨frame, sent, read⟩ | ⟨err, part, wrong, failed, cut⟩
    · obtain ⟨frames, tail, stream, short, parsed⟩ := ih later
      simp only [transmit, sent]
      exact ⟨frame :: frames, tail, by rw [stream, List.flatten_cons, List.append_assoc], short, .cons read parsed⟩
    · refine ⟨[], part, ?_, cut, ?_⟩ <;> simp [transmit, failed]

/-- Whatever parts of its bytes a connection takes at a time, and however the receiver cuts the stream into feeds and
takes packets out between them: it gets exactly the packets whose sends succeeded, in their order. -/
theorem sent_packets_received {ops : List SinkOp} {alloc : Allocator} {run : SinkRun} (handler : Option OutHandler)
    (packets : List (WirePacket × List Int)) (readable : ∀ send ∈ packets, send.1.Readable wide)
    (ran : run = (SinkRun.init wide alloc).steps ops) (fed : ops.flatMap SinkOp.data = (transmit handler packets).2)
    (granted : .nomem ∉ run.results) :
    (∀ result ∈ run.results, result = .ok) ∧
      run.popped ++ run.sink.packets.items = (transmit handler packets).1.map WirePacket.normal := by
  subst ran
  obtain ⟨frames, tail, stream, short, parsed⟩ := transmit_frames handler packets readable
  have start := @SinkRun.delivers_init frames ((transmit handler packets).1.map WirePacket.normal) tail wide alloc
  rw [← stream, ← fed, ← List.append_nil (ops.flatMap _)] at start
  have delivers := start.steps parsed short granted
  exact ⟨delivers.good, (delivers.all parsed).1⟩

/-- An OPEN and an UPDATE, a KEEPALIVE in two pieces, and a NOTIFICATION that breaks off. -/
def samplePackets : List (WirePacket × List Int) :=
  [(.opening (sampleOpen 65002 0x0a000002), []), (.keepalive, [7, 12]),
    (.update (sampleUpdate [] [65002, 70000] [⟨0xc0000200, 24⟩]), [40]), (.notification 6 2 [], [5, -1])]

/-- The bytes on the connection. -/
def sampleStream : Bytes := (transmit (some ⟨3, none⟩) samplePackets).2

theorem sent_packets_received_sample :
    let run := (SinkRun.init true []).steps [.feed (sampleStream.take 70), .pop, .feed (sampleStream.drop 70)]
    (∀ result ∈ run.results, result = .ok) ∧ run.popped ++ run.sink.packets.items =
      [.opening (sampleOpen 65002 0x0a000002), .keepalive,
        .update (sampleUpdate [] [65002, 70000] [⟨0xc0000200, 24⟩])] := by
  refine @sent_packets_received true _ [] _ (some ⟨3, none⟩) samplePackets ?_ rfl ?_ (by decide +kernel)
  · simp [samplePackets, WirePacket.Readable, sampleOpen, sampleUpdate, Capability.Standard, PAttrData.OfWidth,
      PAttrData.Faithful]
  · simp [SinkOp.data, sampleStream]

end Libbgp
