/-
Two speakers that accept each other's OPEN agree about the session.
-/

import Libbgp.Construction.Packet
import Libbgp.Proof.Collision
import Libbgp.Proof.OpenCodec

namespace Libbgp

open Library

section Packets

variable {wide : Bool} {rawType : UInt8} {body rest : Bytes}

/-- A packet behind a proper header. -/
def frame (rawType : UInt8) (body : Bytes) : Bytes :=
  bgpMarker ++ be16 (bgpHeaderLen + body.length) ++ [rawType] ++ body

theorem length_frame : (frame rawType body).length = bgpHeaderLen + body.length := by
  simp [frame, bgpMarker, bgpHeaderLen]
  omega

/-- The body of a framed message is what is parsed. -/
theorem packetParseAs4_frame (short : bgpHeaderLen + body.length ≤ bgpMaxPacketLen) :
    packetParseAs4 wide (frame rawType body) = (do
      let packet ← packetParseBody wide rawType body
      pure (packet, bgpHeaderLen + body.length)) := by
  have total : wireLength (frame rawType body) = bgpHeaderLen + body.length := by
    rw [bgpMaxPacketLen] at short
    exact readBe_be16 (show bgpHeaderLen + body.length < 65536 by omega)
  have long : ¬ (frame rawType body).length < bgpHeaderLen := by
    rw [length_frame]
    omega
  have marked : ¬ ((frame rawType body).take 16 ≠ bgpMarker) := not_not_intro rfl
  have sized : ¬ (wireLength (frame rawType body) < bgpHeaderLen ∨ bgpMaxPacketLen < wireLength (frame rawType body) ∨
      (frame rawType body).length < wireLength (frame rawType body)) := by
    rw [total, length_frame]
    omega
  have behind : (frame rawType body).drop bgpHeaderLen = body := rfl
  rw [packetParseAs4, if_neg long, if_neg marked, if_neg sized, total, behind, Nat.add_sub_cancel_left,
    List.take_length]
  rfl

theorem openMsg_standard (params : FsmParams) (capability : Capability)
    (stored : some capability ∈ params.openMsg.capabilities) : capability.Standard := by
  cases capability with
  | asn4b | mpBgp => exact trivial
  | unknown code value =>
    exfalso
    rw [FsmParams.openMsg] at stored
    simp only [List.mem_append] at stored
    rcases stored with (inside | inside) | inside <;> split at inside <;> simp at inside

/-- The bytes of an OPEN are read as that OPEN, whatever the width of AS numbers. -/
theorem rawCall_opening {params : FsmParams} {bytes : Bytes}
    (written : packetWrite (.opening params.openMsg) bgpMaxPacketLen = .ok bytes) :
    ∃ requests, rawCall wide bytes = (requests, .packet (.opening params.openMsg)) := by
  obtain ⟨⟨rawType, body⟩, encoded, framed⟩ := Work.exists_of_bind (Work.guard_ok written).2
  obtain ⟨body, opened, rest⟩ := Work.exists_of_bind encoded
  obtain ⟨rfl, rfl⟩ := Prod.mk.inj (Except.ok.inj rest)
  obtain ⟨fits, parsed⟩ := openWrite_ok (openMsg_standard params) opened
  obtain rfl : frame 1 body = bytes := Except.ok.inj framed
  have short : bgpHeaderLen + body.length ≤ bgpMaxPacketLen := by
    rw [bgpHeaderLen, bgpMaxPacketLen] at *
    omega
  have gives : Work.Gives (packetParseAs4 wide (frame 1 body))
      (.opening params.openMsg, bgpHeaderLen + body.length) := by
    rw [packetParseAs4_frame short]
    exact (parsed.bind (Work.Gives.check (not_not_intro rfl) (Work.gives_pure _))).bind (Work.gives_pure _)
  have outcome := gives 0
  unfold rawCall
  rcases ran : (packetParseAs4 wide (frame 1 body)).run.run 0 with ⟨result, requests⟩
  rw [ran] at outcome
  subst outcome
  exact ⟨requests, if_neg (not_not_intro length_frame.symm)⟩

end Packets

namespace Sys

variable {code : MessageCode} {sys : Sys} {index : Nat} {msg : OpenMsg}

/-- The session accepted an OPEN. -/
def Up (sys : Sys) (index : Nat) : Prop := (sys.fsm index).state = .openConfirm ∨ (sys.fsm index).state = .established

/-- The session waits for an OPEN. -/
def AwaitsOpen (sys : Sys) (index : Nat) : Prop :=
  (sys.fsm index).statePreOpen = true ∨ (sys.fsm index).state = .openSent

theorem not_up_of_idle (idle : (sys.fsm index).state = .idle) : ¬ sys.Up index := by
  rintro (up | up) <;> rw [idle] at up <;> cases up

theorem AwaitsOpen.not_up (waiting : sys.AwaitsOpen index) : ¬ sys.Up index := by
  rcases waiting with early | opened <;> rintro (up | up)
  · simp [Fsm.statePreOpen, up] at early
  · simp [Fsm.statePreOpen, up] at early
  · cases opened.symm.trans up
  · cases opened.symm.trans up

theorem close_idle (sys : Sys) (index : Nat) : ((sys.snapshotTeardown index).fsm index).state = .idle := by
  simp [snapshotTeardown]

theorem abort_idle (notify : Option (UInt8 × UInt8)) : ((sys.abort index notify).fsm index).state = .idle := by
  cases notify with
  | none => exact close_idle sys index
  | some notify =>
    rw [abort, sendNotification, send_fsm]
    exact close_idle sys index

/-- An accepted OPEN leaves the session confirmed, or the attempt has ended. -/
theorem Handled.accepts {start : Sys} {passive : Bool} {result : Err × Sys}
    (handled : Handled start sys index msg passive result) (up : result.2.Up index) :
    result.2.fsm index = (sys.fsm index).confirmed msg passive := by
  cases handled with
  | wrong err notify wrong => exact absurd up (not_up_of_idle (abort_idle notify))
  | refused after checked opens session detects greater =>
    exact absurd up (not_up_of_idle (by rw [session, Fsm.snapshotTeardown_state]))
  | answered middle result checked uncontested spares opens answered =>
    rw [← spares.fsm]
    cases answered with
    | sent rest sends keepalive opening spent confirming answered => exact moved_fsm ..
    | failed err fsm rest sends news spent confirming same plain =>
      refine absurd up (not_up_of_idle ?_)
      rw [rollbackFailedLocalKeepalive, moved_fsm, if_pos (.inl ⟨confirming, rfl⟩)]
      exact close_idle _ index

/-- What an accepted OPEN leaves in the session that answered it. -/
theorem onPacket_accepts (waiting : sys.AwaitsOpen index) (up : (sys.onPacket code index (.opening msg)).2.Up index) :
    ∃ passive, (sys.onPacket code index (.opening msg)).2.fsm index = (sys.fsm index).confirmed msg passive := by
  generalize heard : sys.observe (.received index (.opening msg)) = middle
  have same : sys.fsm = middle.fsm := by
    rw [← heard]
    rfl
  rw [AwaitsOpen, same] at waiting
  rw [same]
  rcases waiting with early | sent
  · have taken : sys.onPacket code index (.opening msg) = middle.onPreOpenOpen code index msg := by
      rcases state : (middle.fsm index).state <;> simp_all [onPacket, Fsm.statePreOpen]
    rw [taken] at up ⊢
    exact ⟨true, (@onPreOpenOpen_handled sys middle index code msg early).accepts up⟩
  · have taken : sys.onPacket code index (.opening msg) = middle.onOpenSent code index (.opening msg) := by
      simp [onPacket, heard, sent]
    rw [taken] at up ⊢
    exact ⟨false, (@onOpenSent_handled sys middle index code msg sent).accepts up⟩

end Sys

section Agreement

variable {code : MessageCode} {left right : Sys} {here there : Nat} {leftBytes rightBytes : Bytes} {peer : FsmParams}
  (params : FsmParams)

/-- The OPEN of a valid configuration says its AS number. -/
theorem openMsg_asn {params : FsmParams} (valid : params.config.localOpenValid = true) :
    params.openMsg.get4bAsn = params.config.localAsn := by
  rw [OpenMsg.get4bAsn, FsmParams.openMsg]
  cases wide : params.config.enable4byteAsn with
  | true => rfl
  | false =>
    have small : params.config.localAsn ≤ 65535 := by
      simp only [FsmConfig.localOpenValid, wide, Bool.false_or, Bool.and_eq_true, decide_eq_true_eq] at valid
      exact valid.2
    have kept : params.config.localAsn.toUInt16.toUInt32 = params.config.localAsn := by
      refine UInt32.toNat_inj.mp ?_
      have bound : params.config.localAsn.toNat ≤ 65535 := UInt32.le_iff_toNat_le.mp small
      simp only [UInt16.toNat_toUInt32, UInt32.toNat_toUInt16]
      omega
    cases params.enableMpbgpIpv4 <;> cases params.config.enableMpbgpIpv6 <;> exact kept

theorem openMsg_wide : params.openMsg.has4bAsn = params.config.enable4byteAsn := by
  rw [OpenMsg.has4bAsn, FsmParams.openMsg]
  cases params.config.enable4byteAsn <;> cases params.enableMpbgpIpv4 <;> cases params.config.enableMpbgpIpv6 <;> rfl

theorem openMsg_ipv6 : params.openMsg.hasMpbgp 2 1 = params.config.enableMpbgpIpv6 := by
  rw [OpenMsg.hasMpbgp, FsmParams.openMsg]
  cases params.config.enable4byteAsn <;> cases params.enableMpbgpIpv4 <;> cases params.config.enableMpbgpIpv6 <;> simp

theorem openMsg_anyMpbgp :
    params.openMsg.hasAnyMpbgp = (params.enableMpbgpIpv4 || params.config.enableMpbgpIpv6) := by
  rw [OpenMsg.hasAnyMpbgp, FsmParams.openMsg]
  cases params.config.enable4byteAsn <;> cases params.enableMpbgpIpv4 <;> cases params.config.enableMpbgpIpv6 <;> rfl

/-- Both ends decide alike about IPv6 routes. -/
theorem negotiate_ipv6 (fsm : Fsm) (peer : FsmParams) : (fsm.negotiateRouteFamilies peer.openMsg).2 =
    (fsm.params.config.enableMpbgpIpv6 && peer.config.enableMpbgpIpv6) := by
  rw [Fsm.negotiateRouteFamilies, openMsg_ipv6, openMsg_anyMpbgp]
  cases fsm.params.enableMpbgpIpv4 <;> cases fsm.params.config.enableMpbgpIpv6 <;> cases peer.enableMpbgpIpv4 <;>
    cases peer.config.enableMpbgpIpv6 <;> rfl

/-- Both sides negotiate the same hold time. -/
theorem negotiateHoldTime_comm (first second : UInt16) :
    negotiateHoldTime first second = negotiateHoldTime second first := by
  unfold negotiateHoldTime
  rcases Decidable.em (first = 0 ∨ second = 0) with none | both
  · rw [if_pos none, if_pos none.symm]
  · rw [if_neg both, if_neg (fun none : second = 0 ∨ first = 0 => both none.symm)]
    rcases Nat.lt_trichotomy first.toNat second.toNat with less | same | more
    · rw [if_pos (UInt16.lt_iff_toNat_lt.mpr less),
        if_neg fun more => Nat.lt_asymm less (UInt16.lt_iff_toNat_lt.mp more)]
    · rw [UInt16.toNat_inj.mp same]
    · rw [if_neg fun less => Nat.lt_asymm more (UInt16.lt_iff_toNat_lt.mp less),
        if_pos (UInt16.lt_iff_toNat_lt.mpr more)]

/-- What a session records of a peer with a valid configuration. -/
structure Recorded (fsm : Fsm) (own peer : FsmParams) : Prop where
  asn : fsm.peerAsn = peer.config.localAsn
  identifier : fsm.peerBgpId = peer.config.localBgpId
  hold : fsm.negotiatedHoldTime = negotiateHoldTime own.config.holdTime peer.config.holdTime
  wide : fsm.peer4byteAsn = (own.config.enable4byteAsn && peer.config.enable4byteAsn)
  ipv6 : fsm.sendIpv6Routes = (own.config.enableMpbgpIpv6 && peer.config.enableMpbgpIpv6)
  mpbgp : fsm.peerMpbgpIpv6 = (own.config.enableMpbgpIpv6 && peer.config.enableMpbgpIpv6)
  internal : fsm.isIbgp = (peer.config.localAsn == own.config.localAsn)

/-- A confirmed session records what the peer offered. -/
theorem confirmed_recorded (fsm : Fsm) (passive : Bool) (valid : peer.config.localOpenValid = true) :
    Recorded (fsm.confirmed peer.openMsg passive) fsm.params peer := by
  have asn := openMsg_asn valid
  have wide := openMsg_wide peer
  have ipv6 := negotiate_ipv6 fsm peer
  rw [Fsm.confirmed, Fsm.acceptOpen]
  dsimp only
  rw [Fsm.setState_eq]
  refine ⟨asn, rfl, rfl, ?_, ipv6, ipv6, ?_⟩
  · exact congrArg (fsm.params.config.enable4byteAsn && ·) wide
  · exact congrArg (· == fsm.params.config.localAsn) asn

/-- A session that accepts the bytes of an OPEN records the sender's configuration. -/
theorem onRawPacket_recorded {sys : Sys} {index : Nat} {bytes : Bytes} (valid : peer.config.localOpenValid = true)
    (waiting : sys.AwaitsOpen index) (sent : packetWrite (.opening peer.openMsg) bgpMaxPacketLen = .ok bytes)
    (up : (sys.onRawPacket code index bytes).2.Up index) :
    Recorded ((sys.onRawPacket code index bytes).2.fsm index) (sys.fsm index).params peer := by
  obtain ⟨requests, call⟩ := @rawCall_opening (sys.fsm index).rawWide peer bytes sent
  revert up
  unfold Sys.onRawPacket
  simp only [call]
  rcases sys.alloc.requests requests with ⟨granted, alloc⟩
  cases granted with
  | false =>
    intro up
    exact absurd up waiting.not_up
  | true =>
    intro up
    obtain ⟨passive, after⟩ := @Sys.onPacket_accepts code { sys with alloc := alloc } index peer.openMsg waiting up
    show Recorded ((Sys.onPacket code { sys with alloc := alloc } index (.opening peer.openMsg)).2.fsm index) _ peer
    rw [after]
    exact confirmed_recorded (sys.fsm index) passive valid

/-- Two speakers with valid configurations that accept each other's OPEN agree about the session, and each
knows the AS number and the identifier of the other. -/
theorem negotiation_agrees (leftValid : (left.fsm here).params.config.localOpenValid = true)
    (rightValid : (right.fsm there).params.config.localOpenValid = true)
    (leftWaits : left.AwaitsOpen here) (rightWaits : right.AwaitsOpen there)
    (leftSends : packetWrite (.opening (left.fsm here).params.openMsg) bgpMaxPacketLen = .ok leftBytes)
    (rightSends : packetWrite (.opening (right.fsm there).params.openMsg) bgpMaxPacketLen = .ok rightBytes)
    (leftAccepts : (left.onRawPacket code here rightBytes).2.Up here)
    (rightAccepts : (right.onRawPacket code there leftBytes).2.Up there) :
    let leftFsm := (left.onRawPacket code here rightBytes).2.fsm here
    let rightFsm := (right.onRawPacket code there leftBytes).2.fsm there
    leftFsm.negotiatedHoldTime = rightFsm.negotiatedHoldTime ∧ leftFsm.peer4byteAsn = rightFsm.peer4byteAsn ∧
      leftFsm.sendIpv6Routes = rightFsm.sendIpv6Routes ∧ leftFsm.peerMpbgpIpv6 = rightFsm.peerMpbgpIpv6 ∧
      leftFsm.isIbgp = rightFsm.isIbgp ∧
      leftFsm.peerAsn = (right.fsm there).params.config.localAsn ∧
      leftFsm.peerBgpId = (right.fsm there).params.config.localBgpId ∧
      rightFsm.peerAsn = (left.fsm here).params.config.localAsn ∧
      rightFsm.peerBgpId = (left.fsm here).params.config.localBgpId := by
  have ours := onRawPacket_recorded rightValid leftWaits rightSends leftAccepts
  have theirs := onRawPacket_recorded leftValid rightWaits leftSends rightAccepts
  refine ⟨?_, ?_, ?_, ?_, ?_, ours.asn, ours.identifier, theirs.asn, theirs.identifier⟩
  · rw [ours.hold, theirs.hold, negotiateHoldTime_comm]
  · rw [ours.wide, theirs.wide, Bool.and_comm]
  · rw [ours.ipv6, theirs.ipv6, Bool.and_comm]
  · rw [ours.mpbgp, theirs.mpbgp, Bool.and_comm]
  · rw [ours.internal, theirs.internal, BEq.comm]

/-- A speaker that opened. -/
def sampleCaller : Sys := (Sys.init [.session (sampleParams 70000)]).run libbgpCode [calmStep 0 .start]

/-- A speaker that waits, with an AS number of four bytes and no IPv6 routes. -/
def sampleCallee : Sys :=
  Sys.init [.session { sampleParams 65001 with config := ⟨70000, 0x0a000002, 180, 30, true, false⟩ }]

/-- The OPEN of the first speaker. -/
def callerBytes : Bytes :=
  frame 1 [4, 0xfd, 0xe9, 0, 90, 1, 0, 0, 10, 20, 2, 18, 65, 4, 0, 0, 0xfd, 0xe9, 1, 4, 0, 1, 0, 1, 1, 4, 0, 2, 0, 1]

/-- The OPEN of the second speaker, with AS_TRANS in the field of two bytes. -/
def calleeBytes : Bytes := frame 1 [4, 91, 160, 0, 180, 2, 0, 0, 10, 14, 2, 12, 65, 4, 0, 1, 17, 112, 1, 4, 0, 1, 0, 1]

theorem negotiation_agrees_sample :
    ((sampleCaller.onRawPacket libbgpCode 0 calleeBytes).2.fsm 0).peerAsn = 70000 ∧
      ((sampleCallee.onRawPacket libbgpCode 0 callerBytes).2.fsm 0).peerAsn = 65001 ∧
      ((sampleCaller.onRawPacket libbgpCode 0 calleeBytes).2.fsm 0).sendIpv6Routes =
        ((sampleCallee.onRawPacket libbgpCode 0 callerBytes).2.fsm 0).sendIpv6Routes := by
  obtain ⟨-, -, ipv6, -, -, ours, -, theirs, -⟩ :=
    @negotiation_agrees libbgpCode sampleCaller sampleCallee 0 0 callerBytes calleeBytes (by decide +kernel)
      (by decide +kernel) (.inr (by decide +kernel)) (.inl (by decide +kernel)) (by decide +kernel) (by decide +kernel)
      (.inl (by decide +kernel)) (.inl (by decide +kernel))
  exact ⟨ours, theirs, ipv6⟩

end Agreement

end Libbgp
