/-
Several sessions that share the route tables and an event bus: events, deliveries and teardowns.
-/

import Libbgp.Construction.Export

namespace Libbgp

open Library

inductive EventType where
  | routeAdded
  | routeWithdrawn
  | collision
  | sessionUp
  | sessionDown
  deriving DecidableEq, Repr

/-- `libbgp_event_t`. The prefix is present exactly in the two route events. The C events about sessions
do not name the session that publishes them. -/
inductive Event where
  | routeAdded (af : Af) (source : RouterId) (pfx : Prefix af.family.width) (update : UpdateMsg)
  | routeWithdrawn (af : Af) (source : RouterId) (pfx : Prefix af.family.width)
  | collision (source : RouterId)
  | sessionUp (session : Nat)
  | sessionDown (session : Nat)

def Event.type : Event → EventType
  | .routeAdded _ _ _ _ => .routeAdded
  | .routeWithdrawn _ _ _ => .routeWithdrawn
  | .collision _ => .collision
  | .sessionUp _ => .sessionUp
  | .sessionDown _ => .sessionDown

/-- Who is behind a subscription: a session, or a subscriber outside the library. -/
inductive Target where
  | session (index : Nat)
  | observer (number : Nat)
  deriving DecidableEq, Repr

/-- `event_subscriber_t` -/
structure Subscriber where
  id : Nat
  type : EventType
  target : Target
  deriving DecidableEq, Repr

/-- A received packet. -/
inductive Packet where
  | opening (msg : OpenMsg)
  | update (msg : UpdateMsg)
  | notification
  | keepalive
  | unknown

/-- A message that was handed to the peer. An announcement also records the route it stands for. -/
inductive Message where
  | opening (msg : OpenMsg)
  | keepalive
  | notification (code subcode : UInt8)
  | announce (af : Af) (source : RouterId) (pfx : Prefix af.family.width) (update wire : UpdateMsg)
  | withdraw (af : Af) (pfx : Prefix af.family.width) (wire : UpdateMsg)

/-- Why a message had to be built and sent. -/
inductive Cause where
  | routeEvent
  | advertise
  | control
  deriving DecidableEq, Repr

/-- What can be seen of a run. -/
inductive Obs where
  | received (session : Nat) (packet : Packet)
  | published (publisher : Nat) (event : Event)
  | delivered (observer : Nat) (event : Event)
  | sent (session : Nat) (message : Message)
  | failed (session : Nat) (cause : Cause)
  | closed (session : Nat)
  | notified (session : Nat) (before after : FsmState)

/-- An observation with the sessions and the tables of its moment. -/
structure Moment where
  obs : Obs
  fsm : Nat → Fsm
  ribs : Ribs

/-- All sessions with what they share. The answers of the allocator and of the connections are those
of the current call; the trace has its newest moment first. -/
structure Sys where
  fsm : Nat → Fsm
  count : Nat
  subs : List Subscriber
  ribs : Ribs
  alloc : Allocator
  sends : List Err
  trace : List Moment

namespace Sys

def observe (sys : Sys) (obs : Obs) : Sys := { sys with trace := ⟨obs, sys.fsm, sys.ribs⟩ :: sys.trace }

/-- Change one session. -/
def modify (sys : Sys) (index : Nat) (change : Fsm → Fsm) : Sys :=
  { sys with fsm := Function.update sys.fsm index (change (sys.fsm index)) }

/-- `fsm_send_packet` for a message that can always be encoded. -/
def send (sys : Sys) (index : Nat) (message : Message) (cause : Cause) : Err × Sys :=
  if !(sys.fsm index).params.hasOut then (.invalid, sys.observe (.failed index cause))
  else
    match sys.sends with
    | [] => (.ok, sys.observe (.sent index message))
    | .ok :: rest => (.ok, observe { sys with sends := rest } (.sent index message))
    | err :: rest => (err, observe { sys with sends := rest } (.failed index cause))

/-- `fsm_send_packet` for an UPDATE that was built before. -/
def sendBuilt (sys : Sys) (code : MessageCode) (index : Nat) (cause : Cause) (message : UpdateMsg → Message) :
    Except Err UpdateMsg × Allocator → Err × Sys
  | (.error err, alloc) => (err, observe { sys with alloc := alloc } (.failed index cause))
  | (.ok wire, alloc) =>
    match (if (sys.fsm index).params.hasOut then code.packetWrite wire else .invalid) with
    | .ok => send { sys with alloc := alloc } index (message wire) cause
    | err => (err, observe { sys with alloc := alloc } (.failed index cause))

/-- `fsm_send_notification`, whose result most callers drop. -/
def sendNotification (sys : Sys) (index : Nat) (code subcode : UInt8) : Err × Sys :=
  sys.send index (.notification code subcode) .control

/-- `fsm_snapshot_teardown` -/
def snapshotTeardown (sys : Sys) (index : Nat) : Sys := (sys.modify index Fsm.snapshotTeardown).observe (.closed index)

/-- `fsm_drain_state_changes` -/
def drain (sys : Sys) (index : Nat) : List (FsmState × FsmState) × Sys :=
  ((sys.fsm index).stateChanges, sys.modify index fun fsm => { fsm with stateChanges := [] })

/-- `fsm_dispatch_drained_state_changes` -/
def dispatch (sys : Sys) (index : Nat) (changes : List (FsmState × FsmState)) : Sys :=
  changes.foldl (fun sys change => sys.observe (.notified index change.1 change.2)) sys

/-- `fsm_dispatch_state_changes_impl` -/
def drainAndDispatch (sys : Sys) (index : Nat) : Sys :=
  let (changes, sys) := sys.drain index
  sys.dispatch index changes

/-- The subscribers that an event is delivered to, in the order of their subscriptions. -/
def targets (sys : Sys) (publisher : Nat) (event : Event) : List Subscriber :=
  sys.subs.filter fun sub => sub.type == event.type && (publisher == 0 || sub.id != publisher)

def eventStackSnapshot : Nat := 64

/-- Many subscribers need memory for the list of callbacks. -/
def reserveSnapshot (sys : Sys) (matching : Nat) : Bool × Sys :=
  if eventStackSnapshot < matching then
    let (granted, alloc) := sys.alloc.request
    (granted, { sys with alloc := alloc })
  else (true, sys)

/-- `libbgp_event_bus_publish_from` with the callbacks of the subscribers. -/
def publish (sys : Sys) (deliver : Sys → Subscriber → Sys) (publisher : Nat) (event : Event) : Sys :=
  let sys := sys.observe (.published publisher event)
  let matching := sys.targets publisher event
  match sys.reserveSnapshot matching.length with
  | (true, sys) => matching.foldl deliver sys
  | (false, sys) => sys

end Sys

/-- A session passes a route event on: it is established, the route came from somewhere else, and the
family was negotiated. -/
def Fsm.receives (fsm : Fsm) (af : Af) (source : RouterId) : Bool :=
  fsm.state == .established && (source == 0 || source != fsm.peerBgpId) && fsm.sendRoutes af

namespace Sys

/-- What happens to a session whose message failed. -/
abbrev Fail := Nat → UInt64 → Sys → Sys

/-- `fsm_route_event_cb` for the two route events. -/
def routeEventCb (code : MessageCode) (fail : Fail) (sys : Sys) (index : Nat) (event : Event) : Sys :=
  let fsm := sys.fsm index
  match event with
  | .routeAdded af source pfx update =>
    if fsm.receives af source then
      match fsm.outPermits af source pfx update sys.alloc with
      | (true, alloc) =>
        match sys.sendBuilt code index .routeEvent (.announce af source pfx update)
            (fsm.routeAddedMessage code af source pfx update alloc) with
        | (.ok, sys) => sys
        | (_, sys) => fail index fsm.sessionGeneration sys
      | (false, alloc) => { sys with alloc := alloc }
    else sys
  | .routeWithdrawn af source pfx =>
    if fsm.receives af source then
      match sys.sendBuilt code index .routeEvent (.withdraw af pfx) (withdrawMessage af pfx sys.alloc) with
      | (.ok, sys) => sys
      | (_, sys) => fail index fsm.sessionGeneration sys
    else sys
  | _ => sys

/-- One callback of the bus. Only an observer gets the events that are about sessions. -/
def deliver (code : MessageCode) (fail : Fail) (event : Event) (sys : Sys) (sub : Subscriber) : Sys :=
  match sub.target with
  | .session index => sys.routeEventCb code fail index event
  | .observer number => sys.observe (.delivered number event)

/-- `fsm_publish_event` for an event that sessions may react to. -/
def publishEvent (code : MessageCode) (fail : Fail) (sys : Sys) (publisher : Nat) (event : Event) : Sys :=
  sys.publish (deliver code fail event) publisher event

/-- `fsm_publish_route4_added_snapshot`: an event that cannot be built is dropped. -/
def publishAdded (code : MessageCode) (fail : Fail) (sys : Sys) (publisher : Nat) (af : Af)
    (route : Route af.family.width) : Sys :=
  match updateFromRoute af route sys.alloc with
  | (.ok, update, alloc) =>
    publishEvent code fail { sys with alloc := alloc } publisher
      (.routeAdded af route.sourceRouterId route.pfx update)
  | (_, _, alloc) => { sys with alloc := alloc }

/-- One event of `fsm_publish_update_events`. -/
def publishChange (code : MessageCode) (fail : Fail) (sys : Sys) (index : Nat) (peer : RouterId) :
    RouteChange → Sys
  | .added af route => sys.publishAdded code fail (sys.fsm index).params.routeAddedSubId af route
  | .withdrawn af pfx =>
    sys.publishEvent code fail (sys.fsm index).params.routeWithdrawnSubId (.routeWithdrawn af peer pfx)

/-- `fsm_publish_update_events`: it stops as soon as the session is no longer the one of the message. -/
def publishUpdateEvents (code : MessageCode) (fail : Fail) (index : Nat) (generation : UInt64) (peer : RouterId) :
    List RouteChange → Sys → Sys
  | [], sys => sys
  | change :: rest, sys =>
    if (sys.fsm index).sessionCurrent generation then
      publishUpdateEvents code fail index generation peer rest (sys.publishChange code fail index peer change)
    else sys

/-- One family of `fsm_discard_peer_routes_publish`: lost prefixes first, then the replacements. -/
def discardFamilyPublish (code : MessageCode) (fail : Fail) (sys : Sys) (af : Af) (peer : RouterId) : Sys :=
  match (sys.ribs.get af).discardCollect peer sys.alloc with
  | (.ok, result, rib, alloc) =>
    let sys := { sys with ribs := sys.ribs.set af rib, alloc := alloc }
    let sys := result.withdrawn.foldl
      (fun sys pfx => publishEvent code fail sys 0 (.routeWithdrawn af peer pfx)) sys
    result.replacements.foldl (fun sys route => publishAdded code fail sys 0 af route) sys
  | (_, _, rib, alloc) =>
    let (_, rib, alloc) := rib.discard peer alloc
    { sys with ribs := sys.ribs.set af rib, alloc := alloc }

/-- `fsm_discard_peer_routes_publish` -/
def discardPeerRoutesPublish (code : MessageCode) (fail : Fail) (sys : Sys) (peer : RouterId) : Sys :=
  (sys.discardFamilyPublish code fail .ipv4 peer).discardFamilyPublish code fail .ipv6 peer

/-- `fsm_teardown_current_established` -/
def teardownCurrentEstablished (code : MessageCode) (fail : Fail) (index : Nat) (generation : UInt64) (sys : Sys) :
    Sys :=
  if (sys.fsm index).sessionCurrent generation then
    let peer := (sys.fsm index).peerBgpId
    let (changes, sys) := (sys.snapshotTeardown index).drain index
    let sys := sys.discardPeerRoutesPublish code fail peer
    let sys := sys.publishEvent code fail 0 (.sessionDown index)
    sys.dispatch index changes
  else sys

/-- A message that fails while the routes of a lost session are withdrawn tears down the next session.
Each level closes one, so there are at most as many levels as sessions. -/
def teardownAt (code : MessageCode) : Nat → Fail
  | 0 => fun _ _ sys => sys
  | fuel + 1 => teardownCurrentEstablished code (teardownAt code fuel)

/-- The teardown of a session in a system. -/
def fail (code : MessageCode) (sys : Sys) : Fail := teardownAt code (sys.count + 1)

/-- The checks of `fsm_advertise_rib4_cb` before a stored route is sent. -/
def advertises (fsm : Fsm) (af : Af) (route : Route af.family.width) : Bool :=
  route.sourceRouterId != fsm.peerBgpId && !(fsm.isIbgp && route.isIbgp) &&
    (fsm.params.outFilter af).all fun permits => permits route

/-- The walk of `fsm_advertise_existing_rib4`, which ends at the first failure. -/
def advertiseRoutes (code : MessageCode) (index : Nat) (af : Af) :
    List (Route af.family.width) → Sys → Err × Sys
  | [], sys => (.ok, sys)
  | route :: rest, sys =>
    if advertises (sys.fsm index) af route then
      match updateFromRoute af route sys.alloc with
      | (.ok, update, alloc) =>
        match sys.sendBuilt code index .advertise (.announce af route.sourceRouterId route.pfx update)
            ((sys.fsm index).prepareUpdate code update alloc) with
        | (.ok, sys) => advertiseRoutes code index af rest sys
        | failed => failed
      | (err, _, alloc) => (err, observe { sys with alloc := alloc } (.failed index .advertise))
    else advertiseRoutes code index af rest sys

/-- `fsm_advertise_existing_rib4` and `fsm_advertise_existing_rib6` -/
def advertiseExisting (code : MessageCode) (sys : Sys) (index : Nat) (af : Af) : Err × Sys :=
  if (sys.fsm index).sendRoutes af then
    match (sys.ribs.get af).foreachBestRoute sys.alloc with
    | (err, entries, alloc) =>
      match advertiseRoutes code index af (entries.map RouteEntry.route) { sys with alloc := alloc } with
      | (sendErr, sys) => if err = .ok then (sendErr, sys) else (err, sys.observe (.failed index .advertise))
  else (.ok, sys)

/-- `fsm_run_established_actions`. Nothing in between can end the session, so its checks are left out. -/
def runEstablishedActions (code : MessageCode) (sys : Sys) (index : Nat) : Err × Sys :=
  let generation := (sys.fsm index).sessionGeneration
  match sys.advertiseExisting code index .ipv4 with
  | (.ok, sys) =>
    match sys.advertiseExisting code index .ipv6 with
    | (.ok, sys) =>
      let (changes, sys) := sys.drain index
      let sys := sys.publishEvent code (sys.fail code) 0 (.sessionUp index)
      (.ok, sys.dispatch index changes)
    | (err, sys) => (err, sys.fail code index generation sys)
  | (err, sys) => (err, sys.fail code index generation sys)

/-- `fsm_collision_event_cb`: the other attempt with the same peer reports itself, and gives way when
our identifier is not the greater one. -/
def collisionCb (sys : Sys) (index : Nat) (source : RouterId) : Bool × Sys :=
  let fsm := sys.fsm index
  if !fsm.params.noCollisionDetection && fsm.state == .openConfirm && fsm.peerBgpId == source then
    if routerIdLe fsm.params.config.localBgpId source then
      let (changes, sys) := (sys.snapshotTeardown index).drain index
      let (_, sys) := sys.sendNotification index 6 7
      (true, sys.dispatch index changes)
    else (true, sys)
  else (false, sys)

/-- The delivery of a collision event, with the flag that the callbacks share. -/
def deliverCollision (source : RouterId) (state : Bool × Sys) (sub : Subscriber) : Bool × Sys :=
  match sub.target with
  | .session index =>
    let (handled, sys) := collisionCb state.2 index source
    (state.1 || handled, sys)
  | .observer number => (state.1, state.2.observe (.delivered number (.collision source)))

/-- `libbgp_event_bus_publish_from` for a collision event. -/
def publishCollision (sys : Sys) (publisher : Nat) (source : RouterId) : Bool × Sys :=
  let sys := sys.observe (.published publisher (.collision source))
  let matching := sys.targets publisher (.collision source)
  match sys.reserveSnapshot matching.length with
  | (true, sys) => matching.foldl (deliverCollision source) (false, sys)
  | (false, sys) => (false, sys)

/-- `fsm_collision_reject_new_locked` -/
def collisionRejectNew (sys : Sys) (index : Nat) (peer : RouterId) : Bool × Sys :=
  let params := (sys.fsm index).params
  if params.noCollisionDetection then (false, sys)
  else
    let (handled, sys) := sys.publishCollision params.collisionSubId peer
    if handled && !routerIdLe params.config.localBgpId peer then (true, sys.snapshotTeardown index) else (false, sys)

end Sys

end Libbgp
