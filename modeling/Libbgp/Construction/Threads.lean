/-
One session that several threads call at once: every call is cut where the source gives up the
session's lock, and a run is any interleaving of the pieces.
-/

import Libbgp.Construction.Api

namespace Libbgp

/-- A state before the first OPEN. -/
abbrev EarlyState := { state : FsmState // state = .idle ∨ state = .connect ∨ state = .active }

/-- Where a call stands while it does not hold the lock. A generation is the one that the call has read. -/
inductive Stage where
  | done
  /-- `libbgp_fsm_start` is about to send its OPEN. -/
  | starting (generation : UInt64) (before : EarlyState)
  | started (generation : UInt64) (before : EarlyState) (err : Err)
  /-- `fsm_collision_reject_new_locked` publishes its event. -/
  | colliding (msg : OpenMsg) (passive : Bool)
  /-- `fsm_on_pre_open_open` is about to send its OPEN. -/
  | opening (generation : UInt64)
  | opened (generation : UInt64)
  /-- The OPEN is out and the KEEPALIVE is not yet marked as pending. -/
  | between (generation : UInt64)
  /-- The KEEPALIVE that answers an OPEN is about to be sent. -/
  | confirming (generation : UInt64) (passive : Bool)
  | confirmed (generation : UInt64) (passive : Bool)
  | failed (generation : UInt64)
  /-- Routes are sent to the peer. -/
  | advertising (generation : UInt64)
  | losing (generation : UInt64)
  /-- `libbgp_fsm_tick` is about to send a KEEPALIVE. -/
  | beating (generation : UInt64) (state : FsmState) (now : UInt64)
  | beaten (generation : UInt64) (state : FsmState) (now : UInt64) (err : Err)

/-- The call has returned. -/
def Stage.isDone : Stage → Bool
  | .done => true
  | _ => false

/-- The section that leads to this stage has accepted an OPEN. -/
def Stage.accepts : Stage → Stage → Bool
  | .done, .opening _ | .done, .confirming _ _ => true
  | .colliding _ _, .opening _ | .colliding _ _, .confirming _ _ => true
  | _, _ => false

/-- The KEEPALIVE of an attempt was sent between these two stages. -/
def Stage.sends : Stage → Stage → Bool
  | .confirming _ _, .confirmed _ _ => true
  | _, _ => false

namespace Fsm

/-- The test by which an OPEN handling sees that its attempt is still the current one. -/
def attempting (fsm : Fsm) (generation : UInt64) : Bool :=
  fsm.state == .openConfirm && fsm.sessionGeneration == generation

/-- The end of the section that accepts an OPEN. -/
def acceptSection (fsm : Fsm) (msg : OpenMsg) (passive : Bool) : Fsm × Stage :=
  let fsm := fsm.acceptOpen msg passive
  (fsm, if passive then .opening fsm.sessionGeneration else .confirming fsm.sessionGeneration false)

/-- The first section of `fsm_on_open_sent` and of `fsm_on_pre_open_open`. -/
def openSection (fsm : Fsm) (msg : OpenMsg) (passive : Bool) : Fsm × Stage :=
  match fsm.openError msg with
  | some _ => (fsm.snapshotTeardown, .done)
  | none => if fsm.params.noCollisionDetection then fsm.acceptSection msg passive else (fsm, .colliding msg passive)

/-- The rest of `fsm_collision_reject_new_locked` and of the section it is called in. The state is
not looked at again. -/
def collidedSection (fsm : Fsm) (msg : OpenMsg) (passive handled : Bool) : Fsm × Stage :=
  if handled && !routerIdLe fsm.params.config.localBgpId msg.bgpId then (fsm.snapshotTeardown, .done)
  else fsm.acceptSection msg passive

/-- A move to ESTABLISHED, after which the routes are advertised. -/
def establishSection (fsm : Fsm) : Fsm × Stage :=
  let fsm := fsm.establish
  (fsm, .advertising fsm.sessionGeneration)

/-- The section of `fsm_on_open_confirm`. -/
def openConfirmSection (fsm : Fsm) : Packet → Fsm × Stage
  | .opening msg =>
    if fsm.passiveOpenSendPending && (fsm.repeatedOpenError msg).isNone then (fsm, .done)
    else (fsm.snapshotTeardown, .done)
  | .keepalive =>
    if fsm.passiveOpenSendPending then ({ fsm.markRxCurrent with passiveKeepalivePending := true }, .done)
    else if fsm.localKeepaliveSendPending then ({ fsm.markRxCurrent with localKeepalivePending := true }, .done)
    else fsm.markRxCurrent.establishSection
  | _ => (fsm.snapshotTeardown, .done)

/-- The section of `fsm_on_established`. The verdict on an UPDATE is the result of `fsm_apply_update`. -/
def establishedSection (fsm : Fsm) (verdict : Err) : Packet → Fsm × Stage
  | .keepalive => (fsm.markRxCurrent, .done)
  | .update update =>
    if !fsm.peerMpbgpIpv6 && hasMpAttr update then (fsm.snapshotTeardown, .done)
    else
      match verdict with
      | .ok => (fsm.markRxCurrent, .done)
      | .invalid => (fsm.snapshotTeardown, .done)
      | _ => (fsm, .done)
  | _ => (fsm.snapshotTeardown, .done)

/-- The first section of `libbgp_fsm_on_packet`. -/
def packetSection (fsm : Fsm) (verdict : Err) (packet : Packet) : Fsm × Stage :=
  match packet, fsm.state with
  | .notification, _ => (fsm.snapshotTeardown, .done)
  | .opening msg, .idle | .opening msg, .connect | .opening msg, .active => fsm.openSection msg true
  | .opening msg, .openSent => fsm.openSection msg false
  | _, .openSent => (fsm.snapshotTeardown, .done)
  | packet, .openConfirm => fsm.openConfirmSection packet
  | packet, .established => fsm.establishedSection verdict packet
  | _, _ => (fsm, .done)

theorem early_of_statePreOpen {fsm : Fsm} (early : fsm.statePreOpen = true) :
    fsm.state = .idle ∨ fsm.state = .connect ∨ fsm.state = .active := by
  simpa [statePreOpen, or_assoc] using early

/-- The first section of `libbgp_fsm_start`. -/
def startSection (fsm : Fsm) : Fsm × Stage :=
  if early : fsm.params.config.localOpenValid = true ∧ fsm.statePreOpen = true then
    let started := (fsm.setState .openSent).clearPeer
    (started, .starting started.sessionGeneration ⟨fsm.state, early_of_statePreOpen early.2⟩)
  else (fsm, .done)

/-- The section of `fsm_enter_pre_open_state`. -/
def enterSection (fsm : Fsm) (state : FsmState) : Fsm × Stage :=
  if fsm.statePreOpen then ((fsm.setState state).clearPeer, .done) else (fsm, .done)

/-- The first section of `libbgp_fsm_tick`. -/
def tickSection (fsm : Fsm) (now : UInt64) : Fsm × Stage :=
  if !fsm.clockInitialized then
    ({ fsm with currentMs := now, lastRxMs := now, lastKeepaliveMs := now, clockInitialized := true }, .done)
  else
    let fsm := { fsm with currentMs := now }
    if fsm.holdExpired now then (fsm.snapshotTeardown, .done)
    else if fsm.keepaliveDue now then (fsm, .beating fsm.sessionGeneration fsm.state now)
    else (fsm, .done)

/-- The first section of a call. -/
def callSection (fsm : Fsm) (verdict : Err) : Call → Fsm × Stage
  | .start => fsm.startSection
  | .enterConnect => fsm.enterSection .connect
  | .enterActive => fsm.enterSection .active
  | .stop | .resetSoft | .resetHard => (fsm.snapshotTeardown, .done)
  | .packet packet => fsm.packetSection verdict packet
  | .malformed _ notifyCode _ => if notifyCode = 0 then (fsm, .done) else (fsm.snapshotTeardown, .done)
  | .tick now => fsm.tickSection now

/-- The section of `fsm_collision_event_cb`, on the event of another session. -/
def collisionSection (fsm : Fsm) (source : RouterId) : Fsm × Stage :=
  if !fsm.params.noCollisionDetection && fsm.state == .openConfirm && fsm.peerBgpId == source &&
      routerIdLe fsm.params.config.localBgpId source then
    (fsm.snapshotTeardown, .done)
  else (fsm, .done)

/-- The section of `fsm_route_event_cb`: the route of another peer is sent on. -/
def routeEventSection (fsm : Fsm) (source : RouterId) : Fsm × Stage :=
  if fsm.state = .established ∧ (source = 0 ∨ source ≠ fsm.peerBgpId) then (fsm, .advertising fsm.sessionGeneration)
  else (fsm, .done)

/-- The section after the KEEPALIVE that answers an OPEN. Only a passive open looks at
`passive_keepalive_pending`. -/
def confirmedSection (fsm : Fsm) (generation : UInt64) (passive : Bool) : Fsm × Stage :=
  if fsm.attempting generation then
    if fsm.localKeepalivePending || (passive && fsm.passiveKeepalivePending) then fsm.establishSection
    else ({ fsm with localKeepaliveSendPending := false }, .done)
  else (fsm, .done)

/-- `fsm_rollback_failed_local_keepalive` -/
def rollbackFailedLocalKeepalive (fsm : Fsm) (generation : UInt64) : Fsm :=
  if fsm.attempting generation || fsm.sessionCurrent (generation + 1) then fsm.snapshotTeardown else fsm

/-- The section of `libbgp_fsm_start` after a failed send. -/
def unstartSection (fsm : Fsm) (generation : UInt64) (before : EarlyState) : Fsm :=
  if fsm.state = .openSent ∧ fsm.sessionGeneration = generation then
    { fsm.setState before.val with
      localKeepaliveSendPending := false
      localKeepalivePending := false
      passiveOpenSendPending := false
      passiveKeepalivePending := false
      sessionGeneration := fsm.sessionGeneration + 1 }
  else fsm

/-- The next piece of a call: a send with its result, or a section under the lock. -/
def proceed (fsm : Fsm) (err : Err) (handled : Bool) : Stage → Fsm × Stage
  | .done => (fsm, .done)
  | .starting generation before => (fsm, .started generation before err)
  | .started generation before err => (if err = .ok then fsm else fsm.unstartSection generation before, .done)
  | .colliding msg passive => fsm.collidedSection msg passive handled
  | .opening generation => (fsm, if err = .ok then .opened generation else .failed generation)
  | .opened generation =>
    if fsm.attempting generation then ({ fsm with passiveOpenSendPending := false }, .between generation)
    else (fsm, .done)
  | .between generation =>
    if fsm.attempting generation then ({ fsm with localKeepaliveSendPending := true }, .confirming generation true)
    else (fsm, .done)
  | .confirming generation passive => (fsm, if err = .ok then .confirmed generation passive else .failed generation)
  | .confirmed generation passive => fsm.confirmedSection generation passive
  | .failed generation => (fsm.rollbackFailedLocalKeepalive generation, .done)
  | .advertising generation => (fsm, if err = .ok then .done else .losing generation)
  | .losing generation => (if fsm.sessionCurrent generation then fsm.snapshotTeardown else fsm, .done)
  | .beating generation state now => (fsm, .beaten generation state now err)
  | .beaten generation state now err =>
    if fsm.state = state ∧ fsm.sessionGeneration = generation then
      (if err = .ok then { fsm with lastKeepaliveMs := now } else fsm.snapshotTeardown, .done)
    else (fsm, .done)

end Fsm

/-- One piece of the work of one thread. -/
inductive Move where
  | call (thread : Nat) (call : Call) (verdict : Err)
  | collision (thread : Nat) (source : RouterId)
  | routeEvent (thread : Nat) (source : RouterId)
  /-- The call of the thread goes on: with the result of its send, or with the flag of its event. -/
  | proceed (thread : Nat) (err : Err) (handled : Bool)

/-- A session with the calls on it that have not returned. The last three fields record a run: how
many OPENs have been accepted, which of them each thread has accepted last, and the KEEPALIVEs sent. -/
structure Shared where
  fsm : Fsm
  stages : Nat → Stage
  accepted : Nat
  attempts : Nat → Nat
  keepalives : List Nat

namespace Shared

def init (params : FsmParams) : Shared where
  fsm := Fsm.init params
  stages := fun _ => .done
  accepted := 0
  attempts := fun _ => 0
  keepalives := []

/-- A piece of work of a thread leaves the session and the stage of the thread as given. -/
def place (shared : Shared) (thread : Nat) (result : Fsm × Stage) : Shared :=
  let before := shared.stages thread
  let shared := { shared with fsm := result.1, stages := Function.update shared.stages thread result.2 }
  if before.accepts result.2 then
    { shared with
      accepted := shared.accepted + 1
      attempts := Function.update shared.attempts thread (shared.accepted + 1) }
  else if before.sends result.2 then
    { shared with keepalives := shared.attempts thread :: shared.keepalives }
  else shared

/-- A call begins on a thread that has no other call. -/
def begin (shared : Shared) (thread : Nat) (result : Fsm × Stage) : Shared :=
  if (shared.stages thread).isDone then shared.place thread result else shared

def step (shared : Shared) : Move → Shared
  | .call thread call verdict => shared.begin thread (shared.fsm.callSection verdict call)
  | .collision thread source => shared.begin thread (shared.fsm.collisionSection source)
  | .routeEvent thread source => shared.begin thread (shared.fsm.routeEventSection source)
  | .proceed thread err handled => shared.place thread (shared.fsm.proceed err handled (shared.stages thread))

def run (moves : List Move) (shared : Shared) : Shared := moves.foldl step shared

end Shared

end Libbgp
