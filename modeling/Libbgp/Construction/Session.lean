/-
The state of one session, its configuration, and the checks that read nothing else.
-/

import Libbgp.Construction.Route

namespace Libbgp

inductive FsmState where
  | idle
  | connect
  | active
  | openSent
  | openConfirm
  | established
  deriving DecidableEq, Repr

/-- An OPEN capability. -/
inductive Capability where
  | asn4b (asn : UInt32)
  | mpBgp (afi : UInt16) (safi : UInt8)
  | unknown (code : UInt8) (value : List UInt8)
  deriving DecidableEq

structure OpenMsg where
  version : UInt8
  myAsn : UInt16
  holdTime : UInt16
  bgpId : RouterId
  capabilities : List (Option Capability)

/-- `libbgp_open_has_4b_asn` -/
def OpenMsg.has4bAsn (msg : OpenMsg) : Bool :=
  msg.capabilities.any fun
    | some (.asn4b _) => true
    | _ => false

/-- `libbgp_open_get_4b_asn`: the first capability decides, or the two-octet field. -/
def OpenMsg.get4bAsn (msg : OpenMsg) : UInt32 :=
  (msg.capabilities.findSome? fun
    | some (.asn4b asn) => some asn
    | _ => none).getD msg.myAsn.toUInt32

/-- `libbgp_open_has_mpbgp` -/
def OpenMsg.hasMpbgp (msg : OpenMsg) (afi : UInt16) (safi : UInt8) : Bool :=
  msg.capabilities.contains (some (.mpBgp afi safi))

/-- `fsm_open_has_any_mpbgp` -/
def OpenMsg.hasAnyMpbgp (msg : OpenMsg) : Bool :=
  msg.capabilities.any fun
    | some (.mpBgp _ _) => true
    | _ => false

structure FsmConfig where
  localAsn : UInt32
  localBgpId : RouterId
  holdTime : UInt16
  keepaliveTime : UInt16
  enable4byteAsn : Bool
  enableMpbgpIpv6 : Bool

/-- Everything a session is set up with. A filter is the decision it makes about each route. -/
structure FsmParams where
  config : FsmConfig
  expectedPeerAsn : UInt32
  allowLocalAs : UInt8
  routeWeight : Int
  enableMpbgpIpv4 : Bool
  noCollisionDetection : Bool
  hasOut : Bool
  inFilter : (af : Af) → Option (Route af.family.width → Bool)
  outFilter : (af : Af) → Option (Route af.family.width → Bool)
  peeringLan : (af : Af) → Prefix af.family.width
  defaultNexthop4 : BitVec 32
  defaultNexthop6 : BitVec 128
  defaultNexthop6Linklocal : BitVec 128
  noNexthopCheck : Af → Bool
  forceDefaultNexthop : Af → Bool
  ibgpAlterNexthop : Bool
  hasStateChangeCb : Bool
  routeAddedSubId : Nat
  routeWithdrawnSubId : Nat
  collisionSubId : Nat

/-- The part of `fsm_impl_t` that a run changes. -/
structure Fsm where
  params : FsmParams
  state : FsmState
  peerAsn : UInt32
  peerBgpId : RouterId
  negotiatedHoldTime : UInt16
  currentMs : UInt64
  lastRxMs : UInt64
  lastKeepaliveMs : UInt64
  clockInitialized : Bool
  sendIpv4Routes : Bool
  sendIpv6Routes : Bool
  peerMpbgpIpv6 : Bool
  peer4byteAsn : Bool
  peerCanSendAs4Path : Bool
  sessionGeneration : UInt64
  localKeepaliveSendPending : Bool
  localKeepalivePending : Bool
  passiveOpenSendPending : Bool
  passiveKeepalivePending : Bool
  stateChanges : List (FsmState × FsmState)

namespace Fsm

/-- The state after `libbgp_fsm_init`. -/
def init (params : FsmParams) : Fsm where
  params := params
  state := .idle
  peerAsn := 0
  peerBgpId := 0
  negotiatedHoldTime := 0
  currentMs := 0
  lastRxMs := 0
  lastKeepaliveMs := 0
  clockInitialized := false
  sendIpv4Routes := false
  sendIpv6Routes := false
  peerMpbgpIpv6 := false
  peer4byteAsn := false
  peerCanSendAs4Path := false
  sessionGeneration := 0
  localKeepaliveSendPending := false
  localKeepalivePending := false
  passiveOpenSendPending := false
  passiveKeepalivePending := false
  stateChanges := []

/-- The family was negotiated with the peer. -/
def sendRoutes (fsm : Fsm) : Af → Bool
  | .ipv4 => fsm.sendIpv4Routes
  | .ipv6 => fsm.sendIpv6Routes

/-- The peer is in our own AS. -/
def isIbgp (fsm : Fsm) : Bool := fsm.peerAsn == fsm.params.config.localAsn

def stateChangeQueueCap : Nat := 32

/-- `fsm_set_state`: a full queue keeps its last place for the newest state. -/
def setState (fsm : Fsm) (state : FsmState) : Fsm :=
  if fsm.state = state then fsm
  else if !fsm.params.hasStateChangeCb then { fsm with state := state }
  else if stateChangeQueueCap ≤ fsm.stateChanges.length then
    { fsm with state := state, stateChanges := fsm.stateChanges.modify (stateChangeQueueCap - 1) fun change =>
      (change.1, state) }
  else { fsm with state := state, stateChanges := fsm.stateChanges ++ [(fsm.state, state)] }

/-- What every reset of a session attempt clears. -/
def clearPeer (fsm : Fsm) : Fsm :=
  { fsm with
    peerAsn := 0
    peerBgpId := 0
    negotiatedHoldTime := 0
    peerMpbgpIpv6 := false
    peer4byteAsn := false
    peerCanSendAs4Path := false
    sendIpv4Routes := false
    sendIpv6Routes := false
    clockInitialized := false
    localKeepaliveSendPending := false
    localKeepalivePending := false
    passiveOpenSendPending := false
    passiveKeepalivePending := false
    sessionGeneration := fsm.sessionGeneration + 1 }

/-- `fsm_snapshot_teardown`, without the copies of the borrowed pointers. -/
def snapshotTeardown (fsm : Fsm) : Fsm := (fsm.setState .idle).clearPeer

/-- `fsm_mark_rx_current` -/
def markRxCurrent (fsm : Fsm) : Fsm :=
  if fsm.clockInitialized then { fsm with lastRxMs := fsm.currentMs } else fsm

/-- `fsm_update_session_current` -/
def sessionCurrent (fsm : Fsm) (generation : UInt64) : Bool :=
  fsm.state == .established && fsm.sessionGeneration == generation

/-- `fsm_state_pre_open` -/
def statePreOpen (fsm : Fsm) : Bool :=
  fsm.state == .idle || fsm.state == .connect || fsm.state == .active

/-- `fsm_state_hold_timer_active` -/
def holdTimerActive (fsm : Fsm) : Bool :=
  fsm.state == .openConfirm || fsm.state == .established

/-- `fsm_effective_keepalive_time` -/
def effectiveKeepaliveTime (fsm : Fsm) : UInt16 :=
  if fsm.negotiatedHoldTime = 0 then 0
  else
    let holdThird := if fsm.negotiatedHoldTime / 3 = 0 then 1 else fsm.negotiatedHoldTime / 3
    let interval := fsm.params.config.keepaliveTime
    if interval = 0 then holdThird else if holdThird < interval then holdThird else interval

end Fsm

/-- The host integer that holds an identifier. -/
def routerIdValue (id : RouterId) : Nat := hostWord (addrBytes id)

/-- `fsm_local_open_config_valid` -/
def FsmConfig.localOpenValid (config : FsmConfig) : Bool :=
  config.localBgpId != 0 && !(config.holdTime != 0 && config.holdTime < 3) &&
    (config.enable4byteAsn || config.localAsn ≤ 65535)

/-- The first octets that no host address has. -/
def unusableFirstOctet (first : Nat) : Bool := first == 0 || first == 127 || 224 ≤ first

/-- `fsm_valid_peer_bgp_id`: the first octet is taken from the host integer. -/
def validPeerBgpId (peer localId : RouterId) : Bool :=
  peer != 0 && peer != localId && !unusableFirstOctet (routerIdValue peer >>> 24 % 256)

/-- `fsm_router_id_cmp` as the order of the host integers. -/
def routerIdLe (a b : RouterId) : Bool := routerIdValue a ≤ routerIdValue b

/-- `fsm_negotiate_route_families`: the IPv4 and the IPv6 decision. -/
def Fsm.negotiateRouteFamilies (fsm : Fsm) (msg : OpenMsg) : Bool × Bool :=
  let localMp4 := fsm.params.enableMpbgpIpv4
  let localMp6 := fsm.params.config.enableMpbgpIpv6
  let fallback := !(localMp6 && !localMp4)
  if msg.hasAnyMpbgp && (localMp4 || localMp6) then
    (if localMp4 && msg.hasMpbgp 1 1 then true else fallback, localMp6 && msg.hasMpbgp 2 1)
  else (fallback, false)

/-- The smaller hold time, or none when one side wants none. -/
def negotiateHoldTime (localHold peerHold : UInt16) : UInt16 :=
  if localHold = 0 ∨ peerHold = 0 then 0 else if localHold < peerHold then localHold else peerHold

/-- An accepted OPEN fills in the peer and moves to OPEN_CONFIRM. -/
def Fsm.acceptOpen (fsm : Fsm) (msg : OpenMsg) (passive : Bool) : Fsm :=
  let families := fsm.negotiateRouteFamilies msg
  let peer4byteAsn := fsm.params.config.enable4byteAsn && msg.has4bAsn
  let fsm := { fsm with
    peerAsn := msg.get4bAsn
    peerBgpId := msg.bgpId
    negotiatedHoldTime := negotiateHoldTime fsm.params.config.holdTime msg.holdTime
    peerMpbgpIpv6 := families.2
    peer4byteAsn := peer4byteAsn
    peerCanSendAs4Path := fsm.params.config.enable4byteAsn && !peer4byteAsn
    sendIpv4Routes := families.1
    sendIpv6Routes := families.2 }.setState .openConfirm
  { fsm with
    sessionGeneration := fsm.sessionGeneration + 1
    lastRxMs := 0
    lastKeepaliveMs := 0
    clockInitialized := false
    localKeepaliveSendPending := !passive
    localKeepalivePending := false
    passiveOpenSendPending := passive
    passiveKeepalivePending := false }

/-- The move to ESTABLISHED. -/
def Fsm.establish (fsm : Fsm) : Fsm :=
  let fsm := fsm.setState .established
  { fsm with
    sessionGeneration := fsm.sessionGeneration + 1
    localKeepaliveSendPending := false
    localKeepalivePending := false
    passiveOpenSendPending := false
    passiveKeepalivePending := false }

/-- `fsm_valid_addr4` without a session. -/
def validAddr4 (addr : BitVec 32) : Bool := !unusableFirstOctet (addrByte addr 0)

/-- `fsm_linklocal_addr6` -/
def linklocalAddr6 (addr : BitVec 128) : Bool :=
  addrByte addr 0 == 0xfe && addrByte addr 1 &&& 0xc0 == 0x80

/-- `fsm_valid_addr6` -/
def validAddr6 (addr : BitVec 128) : Bool :=
  addr != 0 && addrByte addr 0 != 0xff && !linklocalAddr6 addr

/-- `fsm_ipv4_next_hop_acceptable`. Our identifier is compared after a conversion to network order. -/
def Fsm.ipv4NextHopAcceptable (fsm : Fsm) (nextHop : BitVec 32) (isIbgp : Bool) : Bool :=
  nextHop != fsm.params.defaultNexthop4 &&
    nextHop != BitVec.ofNat 32 (routerIdValue fsm.params.config.localBgpId) && validAddr4 nextHop &&
    (fsm.params.noNexthopCheck .ipv4 || isIbgp || addrMatches ipv4 (fsm.params.peeringLan .ipv4) nextHop)

/-- `fsm_ipv6_next_hop_acceptable` -/
def Fsm.ipv6NextHopAcceptable (fsm : Fsm) (nextHop linkLocal : BitVec 128) (nextHopLen : Nat)
    (isIbgp : Bool) : Bool :=
  (nextHopLen == 16 || nextHopLen == 32) && validAddr6 nextHop &&
    !(nextHopLen == 32 && linkLocal != 0 && !linklocalAddr6 linkLocal) &&
    (fsm.params.noNexthopCheck .ipv6 || isIbgp || addrMatches ipv6 (fsm.params.peeringLan .ipv6) nextHop)

end Libbgp
