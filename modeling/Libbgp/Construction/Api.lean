/-
The calls on a session: start, stop, packets and the clock; and runs of such calls.
-/

import Libbgp.Construction.System

namespace Libbgp

open Library

/-- The OPEN that `fsm_send_open` builds. -/
def FsmParams.openMsg (params : FsmParams) : OpenMsg where
  version := 4
  myAsn :=
    if params.config.enable4byteAsn && 65535 < params.config.localAsn then asTrans.toUInt16
    else params.config.localAsn.toUInt16
  holdTime := params.config.holdTime
  bgpId := params.config.localBgpId
  capabilities :=
    (if params.config.enable4byteAsn then [some (.asn4b params.config.localAsn)] else []) ++
      (if params.enableMpbgpIpv4 then [some (.mpBgp 1 1)] else []) ++
      (if params.config.enableMpbgpIpv6 then [some (.mpBgp 2 1)] else [])

namespace Fsm

/-- The checks of a received OPEN in the order of the source: the result of the call and the
NOTIFICATION, if one is sent. -/
def openError (fsm : Fsm) (msg : OpenMsg) : Option (Err × Option (UInt8 × UInt8)) :=
  if msg.version ≠ 4 then some (.badLen, some (2, 1))
  else if msg.holdTime ≠ 0 ∧ msg.holdTime < 3 then some (.invalid, some (2, 6))
  else if !validPeerBgpId msg.bgpId fsm.params.config.localBgpId then some (.invalid, some (2, 3))
  else if !fsm.params.config.localOpenValid then some (.invalid, none)
  else if fsm.params.expectedPeerAsn ≠ 0 ∧ msg.get4bAsn ≠ fsm.params.expectedPeerAsn then
    some (.invalid, some (2, 2))
  else none

/-- A second OPEN during a passive open gets the first three checks only. -/
def repeatedOpenError (fsm : Fsm) (msg : OpenMsg) : Option (Err × Option (UInt8 × UInt8)) :=
  if msg.version ≠ 4 then some (.badLen, some (2, 1))
  else if msg.holdTime ≠ 0 ∧ msg.holdTime < 3 then some (.invalid, some (2, 6))
  else if !validPeerBgpId msg.bgpId fsm.params.config.localBgpId then some (.invalid, some (2, 3))
  else none

/-- The message carries an IPv6 attribute. -/
def hasMpAttr (update : UpdateMsg) : Bool :=
  (update.attrs.filterMap id).any fun attr => attr.type == .mpReachIpv6 || attr.type == .mpUnreachIpv6

/-- The hold timer of the session has run out. -/
def holdExpired (fsm : Fsm) (now : UInt64) : Bool :=
  fsm.negotiatedHoldTime != 0 && fsm.holdTimerActive && fsm.negotiatedHoldTime.toUInt64 * 1000 ≤ now - fsm.lastRxMs

/-- It is time for the next KEEPALIVE. -/
def keepaliveDue (fsm : Fsm) (now : UInt64) : Bool :=
  fsm.holdTimerActive && fsm.effectiveKeepaliveTime != 0 &&
    fsm.effectiveKeepaliveTime.toUInt64 * 1000 ≤ now - fsm.lastKeepaliveMs

end Fsm

namespace Sys

/-- `fsm_send_open`: every capability takes two requests. -/
def sendOpen (sys : Sys) (index : Nat) : Err × Sys :=
  let params := (sys.fsm index).params
  if !params.config.localOpenValid then (.invalid, sys.observe (.failed index .control))
  else
    let capabilities := params.config.enable4byteAsn.toNat + params.enableMpbgpIpv4.toNat +
      params.config.enableMpbgpIpv6.toNat
    match sys.alloc.requests (2 * capabilities) with
    | (true, alloc) => send { sys with alloc := alloc } index (.opening params.openMsg) .control
    | (false, alloc) => (.nomem, observe { sys with alloc := alloc } (.failed index .control))

/-- `fsm_rollback_failed_local_keepalive`, which clears the same fields as a teardown. -/
def rollbackFailedLocalKeepalive (sys : Sys) (index : Nat) (generation : UInt64) : Sys :=
  let fsm := sys.fsm index
  if (fsm.state = .openConfirm ∧ fsm.sessionGeneration = generation) ∨
      (fsm.state = .established ∧ fsm.sessionGeneration = generation + 1) then
    sys.snapshotTeardown index
  else sys

/-- End a session attempt that has no routes, with an optional NOTIFICATION. -/
def abort (sys : Sys) (index : Nat) (notify : Option (UInt8 × UInt8)) : Sys :=
  match notify with
  | none => sys.snapshotTeardown index
  | some (code, subcode) => ((sys.snapshotTeardown index).sendNotification index code subcode).2

/-- The routes of a lost session are withdrawn and its end is announced. -/
def loseRoutes (code : MessageCode) (sys : Sys) (index : Nat) (established : Bool) (peer : RouterId) : Sys :=
  if established then
    (sys.discardPeerRoutesPublish code (sys.fail code) peer).publishEvent code (sys.fail code) 0 (.sessionDown index)
  else sys

/-- `fsm_enter_pre_open_state` -/
def enterPreOpenState (sys : Sys) (index : Nat) (state : FsmState) : Err × Sys :=
  if (sys.fsm index).statePreOpen then
    (.ok, (sys.modify index fun fsm => (fsm.setState state).clearPeer).drainAndDispatch index)
  else (.invalid, sys)

/-- `libbgp_fsm_start`. Nothing changes the session while its OPEN is sent, so a failure always goes
back to the state before. -/
def start (sys : Sys) (index : Nat) : Err × Sys :=
  let before := sys.fsm index
  if !before.params.config.localOpenValid then (.invalid, sys)
  else if !before.statePreOpen then (.ok, sys)
  else
    let (err, sys) := (sys.modify index fun fsm => (fsm.setState .openSent).clearPeer).sendOpen index
    let sys := if err = .ok then sys else sys.modify index fun fsm =>
      { fsm.setState before.state with
        localKeepaliveSendPending := false
        localKeepalivePending := false
        passiveOpenSendPending := false
        passiveKeepalivePending := false
        sessionGeneration := fsm.sessionGeneration + 1 }
    (err, sys.drainAndDispatch index)

def adminShutdown : UInt8 := 2
def adminReset : UInt8 := 4

/-- `fsm_reset_common`: an administrative stop withdraws the routes before it tells the peer. -/
def resetCommon (code : MessageCode) (sys : Sys) (index : Nat) (sendNotify : Bool) (subcode : UInt8) : Err × Sys :=
  let before := sys.fsm index
  let notify := sendNotify && before.state != .idle
  let established := before.state == .established
  let (changes, sys) := (sys.snapshotTeardown index).drain index
  let early := established && notify && subcode == adminShutdown
  let sys := if early then sys.discardPeerRoutesPublish code (sys.fail code) before.peerBgpId else sys
  let (err, sys) := if notify then sys.sendNotification index 6 subcode else (.ok, sys)
  let sys :=
    if early then sys.publishEvent code (sys.fail code) 0 (.sessionDown index)
    else sys.loseRoutes code index established before.peerBgpId
  (err, sys.dispatch index changes)

/-- The last step to ESTABLISHED. -/
def becomeEstablished (code : MessageCode) (sys : Sys) (index : Nat) : Err × Sys :=
  runEstablishedActions code (sys.modify index Fsm.establish) index

/-- The OPEN of the peer is accepted, unless another attempt with this peer wins. -/
def acceptOpen (sys : Sys) (index : Nat) (msg : OpenMsg) (passive : Bool) : Bool × Sys :=
  match sys.collisionRejectNew index msg.bgpId with
  | (true, sys) => (false, (sys.sendNotification index 6 7).2)
  | (false, sys) => (true, sys.modify index fun fsm => fsm.acceptOpen msg passive)

/-- `fsm_on_open_sent` -/
def onOpenSent (code : MessageCode) (sys : Sys) (index : Nat) (packet : Packet) : Err × Sys :=
  match packet with
  | .opening msg =>
    match (sys.fsm index).openError msg with
    | some (err, notify) => (err, sys.abort index notify)
    | none =>
      match sys.acceptOpen index msg false with
      | (false, sys) => (.ok, sys)
      | (true, sys) =>
        let generation := (sys.fsm index).sessionGeneration
        match sys.send index .keepalive .control with
        | (.ok, sys) =>
          let sys := sys.modify index fun fsm => { fsm with localKeepaliveSendPending := false }
          if (sys.fsm index).localKeepalivePending then sys.becomeEstablished code index else (.ok, sys)
        | (err, sys) => (err, sys.rollbackFailedLocalKeepalive index generation)
  | _ => (.badType, sys.abort index (some (5, 1)))

/-- `fsm_on_pre_open_open` -/
def onPreOpenOpen (code : MessageCode) (sys : Sys) (index : Nat) (msg : OpenMsg) : Err × Sys :=
  match (sys.fsm index).openError msg with
  | some (err, notify) => (err, sys.abort index notify)
  | none =>
    match sys.acceptOpen index msg true with
    | (false, sys) => (.ok, sys)
    | (true, sys) =>
      let generation := (sys.fsm index).sessionGeneration
      match sys.sendOpen index with
      | (.ok, sys) =>
        let sys := sys.modify index fun fsm =>
          { fsm with passiveOpenSendPending := false, localKeepaliveSendPending := true }
        match sys.send index .keepalive .control with
        | (.ok, sys) =>
          if (sys.fsm index).passiveKeepalivePending || (sys.fsm index).localKeepalivePending then
            sys.becomeEstablished code index
          else (.ok, sys.modify index fun fsm => { fsm with localKeepaliveSendPending := false })
        | (err, sys) => (err, sys.rollbackFailedLocalKeepalive index generation)
      | (err, sys) => (err, sys.rollbackFailedLocalKeepalive index generation)

/-- `fsm_on_open_confirm` -/
def onOpenConfirm (code : MessageCode) (sys : Sys) (index : Nat) (packet : Packet) : Err × Sys :=
  let fsm := sys.fsm index
  match packet with
  | .opening msg =>
    if fsm.passiveOpenSendPending then
      match fsm.repeatedOpenError msg with
      | some (err, notify) => (err, sys.abort index notify)
      | none => (.ok, sys)
    else (.badType, sys.abort index (some (5, 2)))
  | .keepalive =>
    if fsm.passiveOpenSendPending then
      (.ok, sys.modify index fun fsm => { fsm.markRxCurrent with passiveKeepalivePending := true })
    else if fsm.localKeepaliveSendPending then
      (.ok, sys.modify index fun fsm => { fsm.markRxCurrent with localKeepalivePending := true })
    else (sys.modify index Fsm.markRxCurrent).becomeEstablished code index
  | .notification => (.ok, sys.snapshotTeardown index)
  | _ => (.badType, sys.abort index (some (5, 2)))

/-- An established session ends with a NOTIFICATION to its peer. -/
def endSession (code : MessageCode) (sys : Sys) (index : Nat) (notifyCode subcode : UInt8) : Err × Sys :=
  let peer := (sys.fsm index).peerBgpId
  let (changes, sys) := (sys.snapshotTeardown index).drain index
  let (err, sys) := sys.sendNotification index notifyCode subcode
  (err, (sys.loseRoutes code index true peer).dispatch index changes)

/-- The part of `fsm_on_established` about an UPDATE. -/
def onUpdate (code : MessageCode) (sys : Sys) (index : Nat) (update : UpdateMsg) : Err × Sys :=
  let fsm := sys.fsm index
  if !fsm.peerMpbgpIpv6 && Fsm.hasMpAttr update then
    match sys.endSession code index 3 errMalformedAttrList with
    | (.ok, sys) => (.invalid, sys)
    | (err, sys) => (err, sys)
  else
    match fsm.applyUpdate code update sys.ribs sys.alloc with
    | (.ok, _, applied) =>
      let sys := { sys with ribs := applied.ribs, alloc := applied.alloc }
      let sys := sys.modify index Fsm.markRxCurrent
      (.ok, publishUpdateEvents code (sys.fail code) index fsm.sessionGeneration fsm.peerBgpId
        applied.journal.changes sys)
    | (.invalid, subcode, applied) =>
      let (changes, sys) := (sys.snapshotTeardown index).drain index
      let undone := applied.rollback fsm.peerBgpId
      let (err, sys) := sendNotification { sys with ribs := undone.ribs, alloc := undone.alloc } index 3 subcode
      let sys := (sys.loseRoutes code index true fsm.peerBgpId).dispatch index changes
      (if err = .ok then .invalid else err, sys)
    | (err, _, applied) =>
      let undone := applied.rollback fsm.peerBgpId
      (err, { sys with ribs := undone.ribs, alloc := undone.alloc })

/-- The end of a session that the peer announces. -/
def onNotification (code : MessageCode) (sys : Sys) (index : Nat) : Sys :=
  let before := sys.fsm index
  let (changes, sys) := (sys.snapshotTeardown index).drain index
  (sys.loseRoutes code index (before.state == .established) before.peerBgpId).dispatch index changes

/-- `fsm_on_established` -/
def onEstablished (code : MessageCode) (sys : Sys) (index : Nat) (packet : Packet) : Err × Sys :=
  match packet with
  | .keepalive => (.ok, sys.modify index Fsm.markRxCurrent)
  | .notification => (.ok, sys.onNotification code index)
  | .update update => sys.onUpdate code index update
  | _ => (.badType, (sys.endSession code index 5 3).2)

/-- `libbgp_fsm_on_packet` -/
def onPacket (code : MessageCode) (sys : Sys) (index : Nat) (packet : Packet) : Err × Sys :=
  let sys := sys.observe (.received index packet)
  match packet, (sys.fsm index).state with
  | .notification, _ => (.ok, sys.onNotification code index)
  | .opening msg, .idle | .opening msg, .connect | .opening msg, .active => sys.onPreOpenOpen code index msg
  | packet, .openSent => sys.onOpenSent code index packet
  | packet, .openConfirm => sys.onOpenConfirm code index packet
  | packet, .established => sys.onEstablished code index packet
  | _, _ => (.ok, sys)

/-- The part of `libbgp_fsm_on_raw_packet` about bytes that are no packet. -/
def onMalformed (code : MessageCode) (sys : Sys) (index : Nat) (err : Err) (notifyCode subcode : UInt8) : Err × Sys :=
  if notifyCode = 0 then (err, sys)
  else
    let before := sys.fsm index
    let (changes, sys) := (sys.snapshotTeardown index).drain index
    let sys := sys.loseRoutes code index (before.state == .established) before.peerBgpId
    let (sendErr, sys) := sys.sendNotification index notifyCode subcode
    (if sendErr = .ok then err else sendErr, sys.dispatch index changes)

/-- The first tick of a session sets its clock. -/
def startClock (sys : Sys) (index : Nat) (now : UInt64) : Sys :=
  sys.modify index fun fsm =>
    { fsm with currentMs := now, lastRxMs := now, lastKeepaliveMs := now, clockInitialized := true }

/-- `libbgp_fsm_tick` -/
def tick (code : MessageCode) (sys : Sys) (index : Nat) (now : UInt64) : Err × Sys :=
  if !(sys.fsm index).clockInitialized then (.ok, sys.startClock index now)
  else
    let sys := sys.modify index fun fsm => { fsm with currentMs := now }
    let before := sys.fsm index
    if before.holdExpired now then
      let (changes, sys) := (sys.snapshotTeardown index).drain index
      let (_, sys) := sys.sendNotification index 4 0
      (.ok, (sys.loseRoutes code index (before.state == .established) before.peerBgpId).dispatch index changes)
    else if before.keepaliveDue now then
      match sys.send index .keepalive .control with
      | (.ok, sys) => (.ok, sys.modify index fun fsm => { fsm with lastKeepaliveMs := now })
      | (err, sys) =>
        let (changes, sys) := (sys.snapshotTeardown index).drain index
        (err, (sys.loseRoutes code index (before.state == .established) before.peerBgpId).dispatch index changes)
    else (.ok, sys)

end Sys

/-- A call on a session. -/
inductive Call where
  | start
  | enterConnect
  | enterActive
  | stop
  | resetSoft
  | resetHard
  | packet (packet : Packet)
  | malformed (err : Err) (notifyCode subcode : UInt8)
  | tick (now : UInt64)

/-- A call with what its environment answers: to the requests for memory, and to the sends. -/
structure Step where
  session : Nat
  call : Call
  alloc : Allocator
  sends : List Err

namespace Sys

/-- `libbgp_fsm_enter_connect` -/
abbrev enterConnect (sys : Sys) (index : Nat) : Err × Sys := sys.enterPreOpenState index .connect

/-- `libbgp_fsm_enter_active` -/
abbrev enterActive (sys : Sys) (index : Nat) : Err × Sys := sys.enterPreOpenState index .active

/-- `libbgp_fsm_stop` -/
abbrev stop (code : MessageCode) (sys : Sys) (index : Nat) : Err × Sys := sys.resetCommon code index true adminShutdown

/-- `libbgp_fsm_reset_soft` -/
abbrev resetSoft (code : MessageCode) (sys : Sys) (index : Nat) : Err × Sys :=
  sys.resetCommon code index true adminReset

/-- `libbgp_fsm_reset_hard` -/
abbrev resetHard (code : MessageCode) (sys : Sys) (index : Nat) : Err × Sys := sys.resetCommon code index false 0

/-- A call to the library. -/
def perform (code : MessageCode) (sys : Sys) (index : Nat) : Call → Err × Sys
  | .start => sys.start index
  | .enterConnect => sys.enterConnect index
  | .enterActive => sys.enterActive index
  | .stop => sys.stop code index
  | .resetSoft => sys.resetSoft code index
  | .resetHard => sys.resetHard code index
  | .packet packet => sys.onPacket code index packet
  | .malformed err notifyCode subcode => sys.onMalformed code index err notifyCode subcode
  | .tick now => sys.tick code index now

/-- One call on one of the sessions. -/
def step (code : MessageCode) (sys : Sys) (step : Step) : Sys :=
  if step.session < sys.count then
    (perform code { sys with alloc := step.alloc, sends := step.sends } step.session step.call).2
  else sys

/-- A run of calls. -/
def run (code : MessageCode) (steps : List Step) (sys : Sys) : Sys := steps.foldl (Sys.step code) sys

end Sys

/-- What joins a system before its run: a session, or a subscription from outside. -/
inductive Member where
  | session (params : FsmParams)
  | observer (number : Nat) (type : EventType)

/-- The parameters of the places that no session has taken. -/
def FsmParams.unused : FsmParams where
  config := ⟨0, 0, 0, 0, false, false⟩
  expectedPeerAsn := 0
  allowLocalAs := 0
  routeWeight := 0
  enableMpbgpIpv4 := false
  noCollisionDetection := false
  hasOut := false
  inFilter _ := none
  outFilter _ := none
  peeringLan _ := ⟨0, 0⟩
  defaultNexthop4 := 0
  defaultNexthop6 := 0
  defaultNexthop6Linklocal := 0
  noNexthopCheck _ := false
  forceDefaultNexthop _ := false
  ibgpAlterNexthop := false
  hasStateChangeCb := false
  routeAddedSubId := 0
  routeWithdrawnSubId := 0
  collisionSubId := 0

namespace Sys

/-- Empty tables and an empty bus. -/
def empty : Sys := ⟨fun _ => .init .unused, 0, [], .init, [], [], []⟩

/-- `libbgp_fsm_set_event_bus` of a new session, or `libbgp_event_bus_subscribe`. Identifiers are
counted from one. -/
def attach (sys : Sys) : Member → Sys
  | .session params =>
    let last := sys.subs.length
    let fsm := Fsm.init { params with
      routeAddedSubId := last + 1, routeWithdrawnSubId := last + 2, collisionSubId := last + 3 }
    { sys with
      fsm := Function.update sys.fsm sys.count fsm
      count := sys.count + 1
      subs := sys.subs ++ [⟨last + 1, .routeAdded, .session sys.count⟩,
        ⟨last + 2, .routeWithdrawn, .session sys.count⟩, ⟨last + 3, .collision, .session sys.count⟩] }
  | .observer number type => { sys with subs := sys.subs ++ [⟨sys.subs.length + 1, type, .observer number⟩] }

/-- The system of some members before its first call. -/
def init (members : List Member) : Sys := members.foldl attach empty

end Sys

end Libbgp
