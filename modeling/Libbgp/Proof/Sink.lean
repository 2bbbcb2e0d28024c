/-
The sink delivers the packets of a stream, however the stream is cut into pieces.
-/

import Libbgp.Construction.Sink
import Libbgp.Proof.Bytes

namespace Libbgp

open Library List

/-- The header at the start of some bytes is valid. -/
def ValidHeader (bytes : Bytes) : Prop :=
  bgpHeaderLen ≤ bytes.length ∧ bytes.take 16 = bgpMarker ∧ bgpHeaderLen ≤ wireLength bytes ∧
    wireLength bytes ≤ bgpMaxPacketLen

instance (bytes : Bytes) : Decidable (ValidHeader bytes) := inferInstanceAs (Decidable (_ ∧ _ ∧ _ ∧ _))

/-- The bytes start with a complete frame that has a valid header. -/
def CompleteFrame (bytes : Bytes) : Prop := ValidHeader bytes ∧ wireLength bytes ≤ bytes.length

instance (bytes : Bytes) : Decidable (CompleteFrame bytes) := inferInstanceAs (Decidable (_ ∧ _))

/-- More bytes are needed to know what these are. -/
def Incomplete (bytes : Bytes) : Prop :=
  bytes.length < bgpHeaderLen ∨ ValidHeader bytes ∧ bytes.length < wireLength bytes

/-- What a sink does with the bytes it has, when memory is always granted: its result, the bytes that it keeps
and its queue. -/
def digest (wide : Bool) : Nat → Bytes → List WirePacket → Err × Bytes × List WirePacket
  | 0, bytes, queue => (.ok, bytes, queue)
  | fuel + 1, bytes, queue =>
    if bytes.length < bgpHeaderLen then (.ok, bytes, queue)
    else if ¬ ValidHeader bytes then (.badLen, [], queue)
    else if bytes.length < wireLength bytes then (.ok, bytes, queue)
    else
      match (packetParseAs4 wide (bytes.take (wireLength bytes))).outcome with
      | .error fault => (fault.1, bytes.drop (wireLength bytes), queue)
      | .ok (packet, _) => digest wide fuel (bytes.drop (wireLength bytes)) (queue ++ [packet])

section Headers

variable {wide : Bool} {bytes more : Bytes} {packet : WirePacket} {used : Nat}

theorem wireLength_append (long : bgpHeaderLen ≤ bytes.length) : wireLength (bytes ++ more) = wireLength bytes := by
  rw [bgpHeaderLen] at long
  rw [wireLength, drop_append_of_le_length (by omega), take_append_of_le_length (by rw [length_drop]; omega)]
  rfl

theorem ValidHeader.append (valid : ValidHeader bytes) : ValidHeader (bytes ++ more) := by
  obtain ⟨long, marked, range⟩ := valid
  refine ⟨?_, ?_, ?_⟩
  · rw [length_append]
    omega
  · rw [take_append_of_le_length (by rw [bgpHeaderLen] at long; omega), marked]
  · rw [wireLength_append long]
    exact range

theorem wireLength_take (valid : ValidHeader bytes) (whole : wireLength bytes ≤ bytes.length) :
    wireLength (bytes.take (wireLength bytes)) = wireLength bytes := by
  have long : bgpHeaderLen ≤ (bytes.take (wireLength bytes)).length := by
    rw [length_take_of_le whole]
    exact valid.2.2.1
  rw [← wireLength_append long, take_append_drop]

/-- A valid header stays valid when its frame is cut out. -/
theorem ValidHeader.take (valid : ValidHeader bytes) (whole : wireLength bytes ≤ bytes.length) :
    ValidHeader (bytes.take (wireLength bytes)) := by
  have total := wireLength_take valid whole
  obtain ⟨-, marked, range⟩ := valid
  have longer : 16 ≤ wireLength bytes := Nat.le_trans (by decide) range.1
  refine ⟨?_, ?_, ?_⟩
  · rw [length_take_of_le whole]
    exact range.1
  · rw [take_take, Nat.min_eq_left longer, marked]
  · rw [total]
    exact range

/-- A packet that is accepted takes as many bytes as its header gives. -/
theorem packetParseAs4_used (accepted : (packetParseAs4 wide bytes).outcome = .ok (packet, used)) :
    used = wireLength bytes := by
  obtain ⟨-, long⟩ := (Work.Yields.ofOutcome accepted).check
  obtain ⟨-, marked⟩ := long.check
  obtain ⟨-, body⟩ := marked.check
  obtain ⟨read, -, done⟩ := body.bind
  exact (congrArg Prod.snd (Work.yields_pure done)).symm

end Headers

namespace Sink

/-- What can be seen of a sink: the bytes that wait and the packets that can be taken out. -/
structure Shows (sink : Sink) (pending : Bytes) (queue : List WirePacket) : Prop where
  fits : sink.buf.Fits
  buffered : sink.buffered = pending
  packets : sink.packets.Holds queue

variable {sink after : Sink} {pending data : Bytes} {queue : List WirePacket} {alloc rest : Allocator} {granted : Bool}
  {fuel needed : Nat} {err : Err}

theorem shows_init (wide : Bool) : (init wide).Shows [] [] := ⟨Nat.le_refl 0, rfl, Circular.holds_empty⟩

/-- The doubled capacity is large enough. -/
theorem doubleTo_spec {cap required large : Nat} (grown : doubleTo fuel cap required = some large) :
    required ≤ large ∧ cap ≤ large := by
  induction fuel generalizing cap with
  | zero =>
    rw [doubleTo] at grown
    split at grown
    · cases grown
    · obtain rfl := Option.some.inj grown
      omega
  | succ fuel ih =>
    rw [doubleTo] at grown
    split at grown
    · split at grown
      · cases grown
      · have spec := ih grown
        omega
    · obtain rfl := Option.some.inj grown
      omega

section

variable (sees : sink.Shows pending queue)

include sees

/-- A larger block keeps what is buffered, and has the room that was asked for. -/
theorem growBuf_spec (grown : sink.growBuf needed alloc = (granted, after, rest)) :
    after.Shows pending queue ∧ after.wide = sink.wide ∧ after.buf.start = sink.buf.start ∧
      after.buf.size = sink.buf.size ∧ (granted = true → sink.buf.start + needed ≤ after.bufCap) := by
  have unchanged : sink.Shows pending queue ∧ sink.wide = sink.wide ∧ sink.buf.start = sink.buf.start ∧
      sink.buf.size = sink.buf.size ∧ (false = true → sink.buf.start + needed ≤ sink.bufCap) :=
    ⟨sees, rfl, rfl, rfl, (nomatch ·)⟩
  unfold growBuf at grown
  dsimp only at grown
  -- what is proved does not depend on the capacity that the doubling begins with
  generalize (if sink.bufCap = 0 then bgpHeaderLen
    else if sizeMax / 2 < sink.bufCap then sink.buf.start + needed else sink.bufCap * 2) = first at grown
  split at grown
  · cases grown
    exact unchanged
  · split at grown
    · cases grown
      exact unchanged
    · next cap large =>
        split at grown
        · cases grown
          obtain ⟨fits, view⟩ := sees.fits.extend (replicate (cap - sink.bufCap) 0)
          refine ⟨⟨fits, view.trans sees.buffered, sees.packets⟩, rfl, rfl, rfl, fun _ => ?_⟩
          have enough := (doubleTo_spec large).1
          show _ ≤ (sink.buf.block ++ replicate (cap - sink.bufCap) 0).length
          rw [length_append, length_replicate]
          unfold bufCap
          omega
        · cases grown
          exact unchanged

theorem Shows.compact : { sink with buf := sink.buf.compact }.Shows pending queue :=
  ⟨sees.fits.compact.1, sees.fits.compact.2.1.trans sees.buffered, sees.packets⟩

/-- `sink_reserve_buf` keeps what is buffered, and makes the room that it promises. -/
theorem reserveBuf_spec {len : Nat} (reserved : sink.reserveBuf len alloc = (granted, after, rest)) :
    after.Shows pending queue ∧ after.wide = sink.wide ∧
      (granted = true → after.buf.start + after.buf.size + len ≤ after.bufCap) := by
  have fits : sink.buf.start + sink.buf.size ≤ sink.bufCap := sees.fits
  obtain ⟨-, -, start, size, block⟩ := sees.fits.compact
  have larger {before : Sink} (seen : before.Shows pending queue)
      (wide : before.wide = sink.wide) (same : before.buf.size = sink.buf.size)
      (grown : before.growBuf (sink.buf.size + len) alloc = (granted, after, rest)) :
      after.Shows pending queue ∧ after.wide = sink.wide ∧
        (granted = true → after.buf.start + after.buf.size + len ≤ after.bufCap) := by
    obtain ⟨shown, kept, first, count, room⟩ := growBuf_spec seen grown
    refine ⟨shown, kept.trans wide, fun given => ?_⟩
    have := room given
    omega
  unfold reserveBuf at reserved
  dsimp only at reserved
  split at reserved
  · cases reserved
    exact ⟨sees, rfl, (nomatch ·)⟩
  split at reserved
  · cases reserved
    exact ⟨sees, rfl, (nomatch ·)⟩
  split at reserved
  · cases reserved
    exact ⟨sees, rfl, fun _ => by omega⟩
  split at reserved
  · split at reserved
    · next room =>
        cases reserved
        refine ⟨sees.compact, rfl, fun _ => ?_⟩
        unfold bufCap at *
        simp only [start, size, block] at room ⊢
        omega
    · exact larger sees.compact rfl size reserved
  · split at reserved
    · cases reserved
      refine ⟨sees.compact, rfl, fun _ => ?_⟩
      unfold bufCap at *
      simp only [start, size, block]
      omega
    · exact larger sees rfl rfl reserved

/-- A larger queue shows the same packets. -/
theorem reservePackets_spec (reserved : sink.reservePackets needed alloc = (granted, after, rest)) :
    after.Shows pending queue ∧ after.wide = sink.wide ∧ (granted = true → needed ≤ after.packetCap) := by
  have unchanged : sink.Shows pending queue ∧ sink.wide = sink.wide ∧ (false = true → needed ≤ sink.packetCap) :=
    ⟨sees, rfl, (nomatch ·)⟩
  unfold reservePackets at reserved
  generalize (if sink.packetCap = 0 then 4 else sink.packetCap * 2) = first at reserved
  split at reserved
  · next room =>
      cases reserved
      exact ⟨sees, rfl, fun _ => room⟩
  · next short =>
      split at reserved
      · cases reserved
        exact unchanged
      · next cap large =>
          split at reserved
          · cases reserved
            exact unchanged
          · split at reserved
            · cases reserved
              have enough := (doubleTo_spec large).1
              have holds : queue.length ≤ cap :=
                Nat.le_trans sees.packets.room (Nat.le_trans (Nat.le_of_not_le short) enough)
              refine ⟨⟨sees.fits, sees.buffered, sees.packets.resize holds⟩, rfl, fun _ => ?_⟩
              show needed ≤ ((range cap).map _).length
              rw [length_map, length_range]
              exact enough
            · cases reserved
              exact unchanged

theorem Shows.dropFrame (len : Nat) : (sink.dropFrame len).Shows (pending.drop len) queue := by
  obtain ⟨fits, view⟩ := sees.fits.dropFront len
  exact ⟨fits, view.trans (congrArg (drop len) sees.buffered), sees.packets⟩

theorem Shows.dropAll : sink.dropAll.Shows [] queue :=
  ⟨Nat.zero_le _, rfl, sees.packets⟩

theorem Shows.size : sink.buf.size = pending.length := by
  rw [← sees.buffered]
  exact sees.fits.length_view.symm

theorem Shows.push (room : queue.length + 1 ≤ sink.packetCap) (packet : WirePacket) :
    { sink with packets := sink.packets.push packet }.Shows pending (queue ++ [packet]) :=
  ⟨sees.fits, sees.buffered, sees.packets.push room packet⟩

/-- Processing follows `digest`, unless memory is refused. -/
theorem process_refines (processed : process fuel sink alloc = (err, after, rest)) :
    after.wide = sink.wide ∧ ∃ kept told, after.Shows kept told ∧
      (err ≠ .nomem → digest sink.wide fuel pending queue = (err, kept, told)) := by
  induction fuel generalizing sink pending queue alloc with
  | zero =>
    cases processed
    exact ⟨rfl, pending, queue, sees, fun _ => rfl⟩
  | succ fuel ih =>
    rw [process] at processed
    rw [sees.size, sees.buffered] at processed
    rw [digest]
    split at processed
    case isTrue short =>
      cases processed
      exact ⟨rfl, pending, queue, sees, fun _ => if_pos short⟩
    case isFalse long =>
      rw [if_neg long]
      split at processed
      case isTrue other =>
        cases processed
        exact ⟨rfl, [], queue, sees.dropAll, fun _ => if_pos fun valid => other valid.2.1⟩
      case isFalse marked =>
        split at processed
        case isTrue range =>
          cases processed
          refine ⟨rfl, [], queue, sees.dropAll, fun _ => if_pos fun valid => ?_⟩
          have := valid.2.2
          omega
        case isFalse range =>
          have valid : ValidHeader pending := by
            refine ⟨Nat.le_of_not_lt long, Classical.not_not.mp marked, ?_⟩
            omega
          rw [if_neg (not_not_intro valid)]
          split at processed
          case isTrue short =>
            cases processed
            exact ⟨rfl, pending, queue, sees, fun _ => if_pos short⟩
          case isFalse whole =>
            rw [if_neg whole]
            rcases reserved : sink.reservePackets (sink.packets.count + 1) alloc with ⟨granted, held, left⟩
            rw [reserved] at processed
            obtain ⟨seen, wide, room⟩ := reservePackets_spec sees reserved
            cases granted with
            | false =>
              cases processed
              exact ⟨wide, pending, queue, seen, (absurd rfl ·)⟩
            | true =>
              rw [← wide]
              rcases ran : (packetParseAs4 held.wide (pending.take (wireLength pending))).run.run 0 with
                ⟨result, requests⟩
              rcases spent : Allocator.requests requests left with ⟨given, last⟩
              have parsed : (packetParseAs4 held.wide (pending.take (wireLength pending))).outcome = result :=
                congrArg Prod.fst ran
              simp only [ran, spent] at processed
              cases given with
              | false =>
                cases processed
                exact ⟨rfl, _, queue, seen.dropFrame _, (absurd rfl ·)⟩
              | true =>
                cases result with
                | error fault =>
                  cases processed
                  exact ⟨rfl, _, queue, seen.dropFrame _, fun _ => by rw [parsed]⟩
                | ok read =>
                  obtain ⟨packet, used⟩ := read
                  have exactly : used = wireLength pending :=
                    (packetParseAs4_used parsed).trans (wireLength_take valid (Nat.le_of_not_lt whole))
                  dsimp only at processed
                  rw [if_neg (not_not_intro exactly)] at processed
                  have space : queue.length + 1 ≤ held.packetCap := sees.packets.count ▸ room rfl
                  obtain ⟨same, kept, told, seen, follows⟩ := ih ((seen.push space packet).dropFrame _) processed
                  refine ⟨same, kept, told, seen, fun granted => ?_⟩
                  rw [parsed]
                  exact follows granted

/-- What a feed does, when memory is always granted. -/
theorem feed_refines (fed : sink.feed data alloc = (err, after, rest)) :
    after.wide = sink.wide ∧ ∃ kept told, after.Shows kept told ∧ (err ≠ .nomem → (err, kept, told) =
      if data = [] then (.ok, pending, queue)
        else digest sink.wide (pending ++ data).length (pending ++ data) queue) := by
  unfold feed at fed
  split at fed
  case isTrue nothing =>
    cases fed
    exact ⟨rfl, pending, queue, sees, fun _ => (if_pos (length_eq_zero_iff.mp nothing)).symm⟩
  case isFalse something =>
    rw [if_neg (mt length_eq_zero_iff.mpr something)]
    rcases reserved : sink.reserveBuf data.length alloc with ⟨granted, held, left⟩
    rw [reserved] at fed
    obtain ⟨seen, wide, room⟩ := reserveBuf_spec sees reserved
    cases granted with
    | false =>
      cases fed
      exact ⟨wide, pending, queue, seen, (absurd rfl ·)⟩
    | true =>
      obtain ⟨fits, view, -⟩ := seen.fits.append (room rfl)
      have grown : { held with buf := held.buf.append data }.Shows (pending ++ data) queue :=
        ⟨fits, view.trans (congrArg (· ++ data) seen.buffered), seen.packets⟩
      obtain ⟨same, kept, told, last, follows⟩ := process_refines grown fed
      refine ⟨same.trans wide, kept, told, last, fun given => ?_⟩
      rw [← follows given, ← grown.size, ← wide]

end

theorem pop_empty (sees : sink.Shows pending []) : sink.pop = (.notFound, none, sink) := if_pos sees.packets.count

theorem pop_first {packet : WirePacket} (sees : sink.Shows pending (packet :: queue)) :
    ∃ after, sink.pop = (.ok, some packet, after) ∧ after.wide = sink.wide ∧ after.Shows pending queue := by
  obtain ⟨first, behind⟩ := sees.packets.pop
  have some : ¬ sink.packets.count = 0 := by
    rw [sees.packets.count]
    exact Nat.succ_ne_zero _
  refine ⟨{ sink with packets := sink.packets.pop.2 }, ?_, rfl, sees.fits, sees.buffered, behind⟩
  rw [← first]
  exact if_neg some

end Sink

section Streams

variable {wide : Bool} {bytes more frame pending later tail : Bytes} {packet : WirePacket}
  {frames : List Bytes} {packets queue : List WirePacket} {fuel : Nat}

/-- The bytes are one frame, and are read as this packet. -/
def Parses (wide : Bool) (frame : Bytes) (packet : WirePacket) : Prop :=
  (packetParseAs4 wide frame).outcome = .ok (packet, frame.length)

theorem Parses.wireLength (read : Parses wide frame packet) : wireLength frame = frame.length :=
  (packetParseAs4_used read).symm

theorem Parses.valid (read : Parses wide frame packet) : ValidHeader frame := by
  obtain ⟨long, first⟩ := (Work.Yields.ofOutcome read).check
  obtain ⟨marked, second⟩ := first.check
  obtain ⟨range, -⟩ := second.check
  refine ⟨Nat.le_of_not_lt long, Classical.not_not.mp marked, ?_⟩
  omega

theorem Parses.complete (read : Parses wide frame packet) (more : Bytes) : CompleteFrame (frame ++ more) := by
  refine ⟨read.valid.append, ?_⟩
  rw [wireLength_append read.valid.1, read.wireLength, length_append]
  omega

theorem Incomplete.not_complete (unfinished : Incomplete bytes) : ¬ CompleteFrame bytes := by
  rintro ⟨valid, whole⟩
  rcases unfinished with short | ⟨-, short⟩
  · exact Nat.lt_irrefl _ (Nat.lt_of_lt_of_le short valid.1)
  · omega

/-- What lacks bytes at its end lacks them all the more with some of its bytes cut off. -/
theorem Incomplete.cut (unfinished : Incomplete (bytes ++ more)) : Incomplete bytes := by
  rcases Nat.lt_or_ge bytes.length bgpHeaderLen with short | long
  · exact .inl short
  · rcases unfinished with short | ⟨⟨-, marked, range⟩, short⟩
    · rw [length_append] at short
      omega
    · rw [wireLength_append long] at range short
      rw [take_append_of_le_length (by rw [bgpHeaderLen] at long; omega)] at marked
      rw [length_append] at short
      exact .inr ⟨⟨long, marked, range⟩, by omega⟩

/-- A frame that is cut short is incomplete. -/
theorem Parses.cut (read : Parses wide (bytes ++ more) packet) (some : more ≠ []) : Incomplete bytes := by
  have positive := length_pos_iff.mpr some
  rcases Nat.lt_or_ge bytes.length bgpHeaderLen with short | long
  · exact .inl short
  · obtain ⟨-, marked, range⟩ := read.valid
    have total := read.wireLength
    rw [wireLength_append long] at range total
    rw [take_append_of_le_length (by rw [bgpHeaderLen] at long; omega)] at marked
    rw [length_append] at total
    exact .inr ⟨⟨long, marked, range⟩, by omega⟩

theorem digest_incomplete (unfinished : Incomplete pending) :
    digest wide fuel pending queue = (.ok, pending, queue) := by
  cases fuel with
  | zero => rfl
  | succ fuel =>
    rw [digest]
    rcases unfinished with short | ⟨valid, short⟩
    · exact if_pos short
    · rw [if_neg (Nat.not_lt_of_le valid.1), if_neg (not_not_intro valid), if_pos short]

theorem digest_frame (read : Parses wide frame packet) :
    digest wide (fuel + 1) (frame ++ more) queue = digest wide fuel more (queue ++ [packet]) := by
  have complete := read.complete more
  have length : wireLength (frame ++ more) = frame.length := (wireLength_append read.valid.1).trans read.wireLength
  rw [digest, if_neg (Nat.not_lt_of_le complete.1.1), if_neg (not_not_intro complete.1),
    if_neg (Nat.not_lt_of_le complete.2), length, take_left, read, drop_left]

/-- What reading a part of a stream leads to: the packets of its first frames, and a wait for the rest of the
frame that the part ends in. -/
def StreamRead (frames : List Bytes) (packets : List WirePacket) (tail later : Bytes)
    (queue : List WirePacket) (result : Err × Bytes × List WirePacket) : Prop :=
  ∃ count rest, result = (.ok, rest, queue ++ packets.take count) ∧
    rest ++ later = (frames.drop count).flatten ++ tail ∧ Incomplete rest

/-- A part of a stream is read up to the frame that it ends in. -/
theorem digest_stream (parsed : List.Forall₂ (Parses wide) frames packets) (unfinished : Incomplete tail)
    (enough : pending.length ≤ fuel) (stream : pending ++ later = frames.flatten ++ tail) :
    StreamRead frames packets tail later queue (digest wide fuel pending queue) := by
  induction parsed generalizing pending queue fuel with
  | nil =>
    rw [flatten_nil, nil_append] at stream
    have short : Incomplete pending := Incomplete.cut (stream ▸ unfinished)
    exact ⟨0, pending, by rw [digest_incomplete short, take_nil, append_nil], stream, short⟩
  | @cons frame packet frames packets read parsed ih =>
    have split := stream
    rw [flatten_cons, append_assoc, append_eq_append_iff] at split
    have whole (rest : Bytes) (behind : pending = frame ++ rest) (next : rest ++ later = frames.flatten ++ tail) :
        StreamRead (frame :: frames) (packet :: packets) tail later queue (digest wide fuel pending queue) := by
      subst behind
      have header := read.valid.1
      rw [length_append, bgpHeaderLen] at *
      obtain ⟨fuel, rfl⟩ := Nat.exists_eq_succ_of_ne_zero (show fuel ≠ 0 by omega)
      have shorter : rest.length ≤ fuel := by omega
      obtain ⟨count, left, digested, stream, short⟩ := @ih rest (queue ++ [packet]) fuel shorter next
      refine ⟨count + 1, left, ?_, stream, short⟩
      rw [digest_frame read, digested, append_assoc]
      rfl
    rcases split with ⟨missing, cut, next⟩ | ⟨rest, behind, next⟩
    · rcases missing with _ | ⟨byte, bytes⟩
      · exact whole [] (by rw [cut, append_nil, append_nil]) next
      · have short : Incomplete pending := Parses.cut (cut ▸ read) (cons_ne_nil byte bytes)
        exact ⟨0, pending, by rw [digest_incomplete short, take_zero, append_nil], stream, short⟩
    · exact whole rest behind next.symm

end Streams

/-- The bytes that a call feeds. -/
def SinkOp.data : SinkOp → Bytes
  | .feed data => data
  | .pop => []

namespace SinkRun

variable {wide : Bool} {run : SinkRun} {op : SinkOp} {ops : List SinkOp} {frames : List Bytes}
  {packets : List WirePacket} {tail later : Bytes}

/-- Of a stream of frames, the sink delivered those that came in whole, while the later bytes are not yet fed. -/
structure Delivers (wide : Bool) (frames : List Bytes) (packets : List WirePacket) (tail later : Bytes)
    (run : SinkRun) :
    Prop where
  width : run.sink.wide = wide
  good : ∀ result ∈ run.results, result = .ok
  reads : ∃ count rest queue, run.sink.Shows rest queue ∧ run.popped ++ queue = packets.take count ∧
    rest ++ later = (frames.drop count).flatten ++ tail ∧ Incomplete rest

theorem delivers_init (wide : Bool) (alloc : Allocator) :
    (SinkRun.init wide alloc).Delivers wide frames packets tail (frames.flatten ++ tail) :=
  ⟨rfl, fun _ absent => (nomatch absent), 0, [], [], Sink.shows_init wide, rfl, rfl, .inl (by decide)⟩

theorem step_feed {data : Bytes} {err : Err} {after : Sink} {rest : Allocator}
    (fed : run.sink.feed data run.alloc = (err, after, rest)) :
    run.step (.feed data) = { run with sink := after, alloc := rest, results := run.results ++ [err] } := by
  rw [SinkRun.step, fed]

/-- Each feed and pop goes on with the stream. -/
theorem Delivers.step (parsed : List.Forall₂ (Parses wide) frames packets) (unfinished : Incomplete tail)
    (delivers : run.Delivers wide frames packets tail (op.data ++ later)) (granted : .nomem ∉ (run.step op).results) :
    (run.step op).Delivers wide frames packets tail later := by
  obtain ⟨width, good, count, rest, queue, sees, told, stream, short⟩ := delivers
  cases op with
  | pop =>
    rcases queue with _ | ⟨packet, queue⟩
    · have popped : run.step .pop = run := by
        rw [SinkRun.step, Sink.pop_empty sees]
        simp
      rw [popped]
      exact ⟨width, good, count, rest, [], sees, told, stream, short⟩
    · obtain ⟨after, popped, same, seen⟩ := Sink.pop_first sees
      have stepped : run.step .pop = { run with sink := after, popped := run.popped ++ [packet] } := by
        rw [SinkRun.step, popped]
        rfl
      rw [stepped]
      refine ⟨same.trans width, good, count, rest, queue, seen, ?_, stream, short⟩
      rw [← told]
      exact append_assoc _ _ _
  | feed data =>
    rcases fed : run.sink.feed data run.alloc with ⟨err, after, alloc⟩
    rw [step_feed fed] at granted ⊢
    obtain ⟨same, kept, queued, seen, follows⟩ := Sink.feed_refines sees fed
    have given : err ≠ .nomem := fun refused => granted (refused ▸ mem_append_right _ (mem_singleton_self _))
    have read : StreamRead (frames.drop count) (packets.drop count) tail later queue (err, kept, queued) := by
      rw [follows given]
      split
      case isTrue nothing =>
        subst nothing
        exact ⟨0, rest, by rw [take_zero, append_nil], stream, short⟩
      case isFalse =>
        rw [width]
        exact digest_stream (forall₂_drop count parsed) unfinished (Nat.le_refl _) ((append_assoc _ _ _).trans stream)
    obtain ⟨next, left, outcome, behind, waits⟩ := read
    obtain ⟨rfl, rfl, rfl⟩ : err = .ok ∧ kept = left ∧ queued = queue ++ (packets.drop count).take next := by
      simpa using outcome
    refine ⟨same.trans width, ?_, count + next, kept, _, seen, ?_, ?_, waits⟩
    · intro result member
      rcases mem_append.mp member with old | new
      · exact good result old
      · exact mem_singleton.mp new
    · show run.popped ++ (queue ++ _) = _
      rw [← append_assoc, told, take_add]
    · rw [behind, drop_drop]

theorem results_step (run : SinkRun) (op : SinkOp) : run.results <+: (run.step op).results := by
  cases op with
  | feed data => exact prefix_append _ _
  | pop => exact prefix_refl _

theorem results_steps (run : SinkRun) (ops : List SinkOp) : run.results <+: (run.steps ops).results := by
  induction ops generalizing run with
  | nil => exact prefix_refl _
  | cons op ops ih => exact (run.results_step op).trans (ih (run.step op))

/-- A run of calls delivers the frames in order. -/
theorem Delivers.steps (parsed : List.Forall₂ (Parses wide) frames packets) (unfinished : Incomplete tail)
    (delivers : run.Delivers wide frames packets tail (ops.flatMap SinkOp.data ++ later))
    (granted : .nomem ∉ (run.steps ops).results) : (run.steps ops).Delivers wide frames packets tail later := by
  induction ops generalizing run with
  | nil => exact delivers
  | cons op ops ih =>
    have given : .nomem ∉ (run.step op).results := fun refused =>
      granted (((run.step op).results_steps ops).subset refused)
    rw [flatMap_cons, append_assoc] at delivers
    exact ih (delivers.step parsed unfinished given) granted

/-- With the whole stream fed, all its frames are delivered and its tail is kept. -/
theorem Delivers.all (parsed : List.Forall₂ (Parses wide) frames packets)
    (delivers : run.Delivers wide frames packets tail []) :
    run.popped ++ run.sink.packets.items = packets ∧ run.sink.buffered = tail := by
  obtain ⟨-, -, count, rest, queue, sees, told, stream, short⟩ := delivers
  rw [append_nil] at stream
  have behind := forall₂_drop count parsed
  have last : frames.drop count = [] ∧ packets.drop count = [] := by
    rw [stream] at short
    generalize frames.drop count = left at behind short
    generalize packets.drop count = waiting at behind
    cases behind with
    | nil => exact ⟨rfl, rfl⟩
    | cons read others =>
      rw [flatten_cons, append_assoc] at short
      exact absurd (read.complete _) short.not_complete
  refine ⟨?_, ?_⟩
  · rw [sees.packets.items, told, ← take_append_drop count packets, last.2]
    simp
  · rw [sees.buffered, stream, last.1]
    rfl

end SinkRun

section Results

variable {wide : Bool} {ops : List SinkOp} {frames : List Bytes} {packets : List WirePacket} {tail : Bytes}
  {more : Bytes} {fuel : Nat} {pending kept : Bytes} {queue told : List WirePacket} {err : Err}

/-- A stream of frames that ends within a frame: however it is cut into feeds, and wherever packets are taken out
between them, each feed succeeds, the packets come out in the order of the stream, none is lost, and the bytes of the
last frame are kept. A single feed of the stream leads to the same. -/
theorem sink_delivers_stream (parsed : List.Forall₂ (Parses wide) frames packets) (unfinished : Incomplete tail)
    (fed : ops.flatMap SinkOp.data = frames.flatten ++ tail) (alloc : Allocator)
    (granted : .nomem ∉ ((SinkRun.init wide alloc).steps ops).results) :
    (∀ result ∈ ((SinkRun.init wide alloc).steps ops).results, result = .ok) ∧
      ((SinkRun.init wide alloc).steps ops).popped ++
        ((SinkRun.init wide alloc).steps ops).sink.packets.items = packets ∧
      ((SinkRun.init wide alloc).steps ops).sink.buffered = tail ∧
      ∀ (other : Allocator) (sink : Sink) (rest : Allocator) (err : Err),
        (Sink.init wide).feed (frames.flatten ++ tail) other = (err, sink, rest) → err ≠ .nomem →
          err = .ok ∧ sink.packets.items = packets ∧ sink.buffered = tail := by
  have whole {ops : List SinkOp} (fed : ops.flatMap SinkOp.data = frames.flatten ++ tail) (alloc : Allocator)
      (granted : .nomem ∉ ((SinkRun.init wide alloc).steps ops).results) :
      ((SinkRun.init wide alloc).steps ops).Delivers wide frames packets tail [] := by
    refine SinkRun.Delivers.steps parsed unfinished ?_ granted
    rw [append_nil, fed]
    exact SinkRun.delivers_init wide alloc
  have delivers := whole fed alloc granted
  obtain ⟨told, kept⟩ := delivers.all parsed
  refine ⟨delivers.good, told, kept, fun other sink rest err once given => ?_⟩
  have single : (SinkRun.init wide other).steps [.feed (frames.flatten ++ tail)] = ⟨sink, rest, [err], []⟩ :=
    SinkRun.step_feed once
  have delivers := whole (flatMap_singleton _ _) other
    (by rw [single]; exact fun refused => given (mem_singleton.mp refused).symm)
  rw [single] at delivers
  obtain ⟨told, kept⟩ := delivers.all parsed
  exact ⟨delivers.good err (mem_singleton_self _), told, kept⟩

/-- A KEEPALIVE packet. -/
def sampleFrame : Bytes := bgpMarker ++ [0, 19, 4]

/-- A KEEPALIVE, a packet of an unknown type and the start of another packet. -/
def sampleFrames : Bytes := sampleFrame ++ (bgpMarker ++ [0, 20, 9, 1]) ++ bgpMarker.take 5

theorem sink_delivers_stream_sample :
    let run := (SinkRun.init true []).steps [.feed (sampleFrames.take 10), .pop, .feed (sampleFrames.drop 10), .pop]
    run.popped ++ run.sink.packets.items = [.keepalive, .unknown 9 [1]] ∧ run.sink.buffered = bgpMarker.take 5 := by
  have parsed : List.Forall₂ (Parses true) [sampleFrame, bgpMarker ++ [0, 20, 9, 1]] [.keepalive, .unknown 9 [1]] :=
    .cons rfl (.cons rfl .nil)
  have delivers := @sink_delivers_stream true [.feed (sampleFrames.take 10), .pop, .feed (sampleFrames.drop 10), .pop]
    _ _ (bgpMarker.take 5) parsed (.inl (by decide)) (by decide +kernel) [] (by decide +kernel)
  exact ⟨delivers.2.1, delivers.2.2.1⟩

/-- A refused frame is not followed by a complete one: of the bytes that are read after some frames that are accepted,
no whole frame is refused with a complete frame right behind it. -/
def Tidy (wide : Bool) (bytes : Bytes) : Prop :=
  ∀ frames packets refused behind fault, List.Forall₂ (Parses wide) frames packets →
    bytes = frames.flatten ++ (refused ++ behind) → ValidHeader refused → wireLength refused = refused.length →
    (packetParseAs4 wide refused).outcome = .error fault → ¬ CompleteFrame behind

theorem Tidy.behind {frame : Bytes} {packet : WirePacket} (tidy : Tidy wide (frame ++ more))
    (read : Parses wide frame packet) : Tidy wide more := by
  intro frames packets refused behind fault parsed same
  refine tidy (frame :: frames) (packet :: packets) refused behind fault (.cons read parsed) ?_
  rw [same, flatten_cons, append_assoc]

/-- After tidy bytes are read, no complete frame waits. -/
theorem digest_tidy (tidy : Tidy wide pending) (enough : pending.length ≤ fuel)
    (digested : digest wide fuel pending queue = (err, kept, told)) : ¬ CompleteFrame kept := by
  induction fuel generalizing pending queue with
  | zero =>
    cases digested
    obtain rfl := length_eq_zero_iff.mp (Nat.le_zero.mp enough)
    decide
  | succ fuel ih =>
    rw [digest] at digested
    split at digested
    case isTrue short =>
      cases digested
      exact Incomplete.not_complete (.inl short)
    case isFalse long =>
      split at digested
      case isTrue bad =>
        cases digested
        decide
      case isFalse good =>
        have valid : ValidHeader pending := Classical.not_not.mp good
        split at digested
        case isTrue short =>
          cases digested
          exact Incomplete.not_complete (.inr ⟨valid, short⟩)
        case isFalse enough =>
          have whole := Nat.le_of_not_lt enough
          have length : wireLength (pending.take (wireLength pending)) =
              (pending.take (wireLength pending)).length := by
            rw [wireLength_take valid whole, length_take_of_le whole]
          have parts := take_append_drop (wireLength pending) pending
          split at digested
          case h_1 fault refused =>
            cases digested
            exact tidy [] [] _ _ fault .nil parts.symm (valid.take whole) length refused
          case h_2 packet used accepted =>
            have read : Parses wide (pending.take (wireLength pending)) packet := by
              rw [Parses, accepted, packetParseAs4_used accepted, length]
            refine ih (Tidy.behind (parts.symm ▸ tidy) read) ?_ digested
            have header := valid.2.2.1
            rw [length_drop]
            rw [bgpHeaderLen] at header
            omega

/-- What is read is queued behind what waits already. -/
theorem digest_queue (digested : digest wide fuel pending queue = (err, kept, told)) : queue <+: told := by
  fun_induction digest wide fuel pending queue with
  | case1 | case2 | case3 | case4 | case5 =>
    cases digested
    exact prefix_refl _
  | case6 _ _ _ _ _ _ _ _ _ ih => exact (prefix_append _ _).trans (ih digested)

/-- Frames that are accepted are queued, whatever is behind them. -/
theorem digest_frames (parsed : List.Forall₂ (Parses wide) frames packets)
    (enough : (frames.flatten ++ more).length ≤ fuel)
    (digested : digest wide fuel (frames.flatten ++ more) queue = (err, kept, told)) : queue ++ packets <+: told := by
  induction parsed generalizing queue fuel with
  | nil =>
    rw [append_nil]
    exact digest_queue digested
  | @cons frame packet frames packets read parsed ih =>
    have header := read.valid.1
    rw [flatten_cons, append_assoc] at enough digested
    rw [length_append] at enough
    rw [bgpHeaderLen] at header
    obtain ⟨fuel, rfl⟩ := Nat.exists_eq_succ_of_ne_zero (show fuel ≠ 0 by omega)
    rw [digest_frame read] at digested
    have shorter : (frames.flatten ++ more).length ≤ fuel := by omega
    rw [append_cons]
    exact ih shorter digested

theorem SinkRun.shown_steps (run : SinkRun) (sees : ∃ pending queue, run.sink.Shows pending queue) (ops : List SinkOp) :
    (run.steps ops).sink.wide = run.sink.wide ∧ ∃ pending queue, (run.steps ops).sink.Shows pending queue := by
  induction ops generalizing run with
  | nil => exact ⟨rfl, sees⟩
  | cons op ops ih =>
    have stepped : (run.step op).sink.wide = run.sink.wide ∧
        ∃ pending queue, (run.step op).sink.Shows pending queue := by
      obtain ⟨pending, queue, sees⟩ := sees
      cases op with
      | feed data =>
        obtain ⟨same, kept, told, seen, -⟩ := Sink.feed_refines sees rfl
        exact ⟨same, kept, told, seen⟩
      | pop =>
        rcases queue with _ | ⟨packet, queue⟩
        · rw [SinkRun.step, Sink.pop_empty sees]
          exact ⟨rfl, pending, [], sees⟩
        · obtain ⟨after, popped, same, seen⟩ := Sink.pop_first sees
          rw [SinkRun.step, popped]
          exact ⟨same, pending, queue, seen⟩
    obtain ⟨same, seen⟩ := ih (run.step op) stepped.2
    exact ⟨same.trans stepped.1, seen⟩

/-- After any run, a feed of bytes in which no refused frame has a complete one behind it leaves no complete frame at
the start of the buffer, and every frame that can be read before a refused one waits to be taken out. -/
theorem sink_keeps_no_frame (alloc : Allocator) (ops : List SinkOp) {data : Bytes} {err : Err} {after : Sink}
    {rest : Allocator}
    (fed : ((SinkRun.init wide alloc).steps ops).sink.feed data ((SinkRun.init wide alloc).steps ops).alloc =
      (err, after, rest))
    (granted : err ≠ .nomem) (tidy : Tidy wide (((SinkRun.init wide alloc).steps ops).sink.buffered ++ data))
    (fresh : data = [] → ¬ CompleteFrame ((SinkRun.init wide alloc).steps ops).sink.buffered) :
    ¬ CompleteFrame after.buffered ∧ ∀ frames packets more, List.Forall₂ (Parses wide) frames packets →
      ((SinkRun.init wide alloc).steps ops).sink.buffered ++ data = frames.flatten ++ more →
      ((SinkRun.init wide alloc).steps ops).sink.packets.items ++ packets <+: after.packets.items := by
  obtain ⟨width, pending, queue, sees⟩ := (SinkRun.init wide alloc).shown_steps ⟨[], [], Sink.shows_init wide⟩ ops
  have width : ((SinkRun.init wide alloc).steps ops).sink.wide = wide := width
  obtain ⟨-, kept, told, seen, follows⟩ := Sink.feed_refines sees fed
  have result := follows granted
  rw [sees.buffered] at tidy fresh
  rw [seen.buffered, seen.packets.items, sees.packets.items, sees.buffered]
  by_cases nothing : data = []
  · rw [if_pos nothing] at result
    obtain ⟨-, rfl, rfl⟩ : err = .ok ∧ kept = pending ∧ told = queue := by simpa using result
    refine ⟨fresh nothing, fun frames packets more parsed stream => ?_⟩
    rw [nothing, append_nil] at stream
    cases parsed with
    | nil =>
      rw [append_nil]
    | cons read others =>
      rw [flatten_cons, append_assoc] at stream
      exact absurd (stream ▸ read.complete _) (fresh nothing)
  · rw [if_neg nothing, width] at result
    refine ⟨digest_tidy tidy (Nat.le_refl _) result.symm, fun frames packets more parsed stream => ?_⟩
    rw [stream] at result
    exact digest_frames parsed (Nat.le_refl _) result.symm

/-- A KEEPALIVE packet with a body, which is refused. -/
def refusedFrame : Bytes := bgpMarker ++ [0, 20, 4, 0]

/-- There is no room for two frames. -/
theorem tidy_of_short {bytes : Bytes} (short : bytes.length < 2 * bgpHeaderLen) : Tidy wide bytes := by
  intro frames packets refused behind fault _ same valid _ _ complete
  have first := valid.1
  have second := complete.1.1
  rw [same, length_append, length_append] at short
  omega

theorem sink_keeps_no_frame_sample :
    let run := (SinkRun.init true []).steps [.feed refusedFrame]
    run.results = [.badLen] ∧ ¬ CompleteFrame (run.sink.feed sampleFrame run.alloc).2.1.buffered := by
  refine ⟨by decide +kernel, ?_⟩
  refine (@sink_keeps_no_frame true [] [.feed refusedFrame] sampleFrame _ _ _ rfl ?_ ?_ ?_).1
  · decide +kernel
  · exact tidy_of_short (by decide +kernel)
  · nofun

/-- Behind a refused frame of the same feed, a complete frame stays at the start of the buffer, and cannot be
taken out. -/
theorem sink_keeps_frame_behind_refused :
    let run := (SinkRun.init true []).steps [.feed (refusedFrame ++ sampleFrame)]
    run.results = [.badLen] ∧ run.sink.buffered = sampleFrame ∧ CompleteFrame sampleFrame ∧
      Parses true sampleFrame .keepalive ∧ run.sink.packets.count = 0 :=
  ⟨by decide +kernel, by decide +kernel, by decide, rfl, by decide +kernel⟩

end Results

end Libbgp
