/-
Checking a received UPDATE and applying it to the route tables.
-/

import Libbgp.Construction.Journal
import Libbgp.Construction.Session

namespace Libbgp

open Library

/-- A function of the message code as a session calls it: its result, after a number of memory requests of
which none may be refused. The results about sessions hold for any such functions; `libbgpCode` has the real ones. -/
structure MessageOp where
  requests : UpdateMsg → Nat
  result : UpdateMsg → Except Err UpdateMsg
  fails : ∀ update err, result update = .error err → err ≠ .ok

def MessageOp.run (op : MessageOp) (update : UpdateMsg) (alloc : Allocator) : Except Err UpdateMsg × Allocator :=
  match alloc.requests (op.requests update) with
  | (true, alloc) => (op.result update, alloc)
  | (false, alloc) => (.error .nomem, alloc)

/-- The message code that the sessions call: the deep copy, the AS path and aggregator conversions, and
the encoder. Every result holds whatever these functions do. -/
structure MessageCode where
  cloneUpdate : MessageOp
  restoreAsPath : MessageOp
  downgradeAsPath : MessageOp
  restoreAggregator : MessageOp
  downgradeAggregator : MessageOp
  prependAsn : UInt32 → Bool → MessageOp
  packetWrite : UpdateMsg → Err

def errMalformedAttrList : UInt8 := 1
def errMissingWellKnown : UInt8 := 3
def errAttrLen : UInt8 := 5

/-- `fsm_validate_update_mp_attr`, as the subcode of the error. -/
def validateUpdateMpAttr (attr : PAttr) : Option UInt8 :=
  match attr.data with
  | .mpReachIpv6 _ _ nexthopLen nlri =>
    if nexthopLen ≠ 16 ∧ nexthopLen ≠ 32 then some errAttrLen
    else if nlri.any (128 < ·.len) then some errMalformedAttrList
    else none
  | .mpUnreachIpv6 withdrawn =>
    if withdrawn.any (128 < ·.len) then some errMalformedAttrList else none
  | _ => none

/-- `fsm_valid_as_path_attr` -/
def validAsPathAttr (attr : PAttr) : Bool :=
  match attr.data with
  | .asPath segments _ | .as4Path segments _ =>
    segments.all fun segment =>
      (segment.type == 1 || segment.type == 2) && segment.asns.length != 0 && segment.asns.length ≤ 255
  | _ => true

/-- The attribute loop of `fsm_validate_update`. The first attribute that fails a check decides. -/
def validateAttrs (seen : List PAttr) : List (Option PAttr) → Option UInt8
  | [] => none
  | none :: _ => some errMalformedAttrList
  | some attr :: rest =>
    if seen.any (·.typeCode == attr.typeCode) then some errMalformedAttrList
    else if !validAsPathAttr attr then some errMalformedAttrList
    else if attr.type != .unknown && seen.any (·.type == attr.type) then some errMalformedAttrList
    else
      match validateUpdateMpAttr attr with
      | some subcode => some subcode
      | none => validateAttrs (attr :: seen) rest

def countType (update : UpdateMsg) (type : PAttrType) : Nat :=
  (update.attrs.filterMap id).countP fun attr => attr.type == type

/-- The update has an IPv6 attribute that announces a prefix. -/
def mpReachHasNlri (update : UpdateMsg) : Bool :=
  (update.attrs.filterMap id).any fun attr =>
    match attr.data with
    | .mpReachIpv6 _ _ _ nlri => !nlri.isEmpty
    | _ => false

/-- `fsm_update_has_advertisements` -/
def UpdateMsg.hasAdvertisements (update : UpdateMsg) : Bool :=
  !update.nlri.isEmpty || mpReachHasNlri update

/-- `fsm_validate_update`: the subcode of the error, or nothing for a valid message. -/
def validateUpdate (update : UpdateMsg) : Option UInt8 :=
  if update.withdrawn.any (32 < ·.len) || update.nlri.any (32 < ·.len) then some errMalformedAttrList
  else
    match validateAttrs [] update.attrs with
    | some subcode => some subcode
    | none =>
      let wellKnown := countType update .origin == 1 && countType update .asPath == 1
      if !update.nlri.isEmpty && !(wellKnown && countType update .nextHop == 1) then some errMissingWellKnown
      else if mpReachHasNlri update && !wellKnown then some errMissingWellKnown
      else none

/-- `fsm_as_path_exceeds_local_as`: the occurrences are counted in each segment alone. -/
def asPathExceedsLocalAs (attr : Option PAttr) (localAsn : UInt32) (allowLocalAs : UInt8) : Bool :=
  match attr.map PAttr.data with
  | some (.asPath segments _) => segments.any fun segment => allowLocalAs.toNat < segment.asns.count localAsn
  | _ => false

/-- `fsm_update_exceeds_local_as`: a message with AS4_PATH from an old speaker is restored first. -/
def updateExceedsLocalAs (code : MessageCode) (update : UpdateMsg) (localAsn : UInt32) (allowLocalAs : UInt8)
    (restoreAs4Path : Bool) (alloc : Allocator) : Except Err Bool × Allocator :=
  if !update.hasAdvertisements then (.ok false, alloc)
  else if !restoreAs4Path || (update.findAttr .as4Path).isNone then
    (.ok (asPathExceedsLocalAs (update.findAttr .asPath) localAsn allowLocalAs), alloc)
  else
    match code.cloneUpdate.run update alloc with
    | (.error err, alloc) => (.error err, alloc)
    | (.ok copy, alloc) =>
      match code.restoreAsPath.run copy alloc with
      | (.error err, alloc) => (.error err, alloc)
      | (.ok restored, alloc) =>
        (.ok (asPathExceedsLocalAs (restored.findAttr .asPath) localAsn allowLocalAs), alloc)

/-- `fsm_as_path_len_and_origin_as`: a set counts as one hop, and the origin is the last AS that is
listed in a sequence. -/
def asPathLenAndOriginAs (attr : Option PAttr) : Nat × UInt32 :=
  match attr.map PAttr.data with
  | some (.asPath segments _) =>
    segments.foldl (fun result segment =>
      if segment.type = 2 then (result.1 + segment.asns.length, segment.asns.getLastD result.2)
      else if segment.type = 1 then (result.1 + 1, result.2)
      else result) (0, 0)
  | _ => (0, 0)

/-- A prefix that a message announces, with the next hop that goes with it. -/
structure Announced (width : Nat) where
  pfx : Prefix width
  nextHop : BitVec width
  linkLocal : BitVec width
  nextHopLen : Nat

/-- The value of the NEXT_HOP attribute, zero when there is none. -/
def nextHopOf (update : UpdateMsg) : BitVec 32 :=
  match (attrViewGet update.attrs 3).map PAttr.data with
  | some (.nextHop nextHop) => nextHop
  | _ => 0

/-- The prefixes that a message announces, in the order of the loops. -/
def announcedPrefixes (update : UpdateMsg) : (af : Af) → List (Announced af.family.width)
  | .ipv4 => update.nlri.map fun pfx => ⟨pfx, nextHopOf update, 0, 0⟩
  | .ipv6 => (update.attrs.filterMap id).flatMap fun attr =>
    match attr.data with
    | .mpReachIpv6 nexthop linkLocal nexthopLen nlri => nlri.map fun pfx => ⟨pfx, nexthop, linkLocal, nexthopLen⟩
    | _ => []

/-- The prefixes that a message withdraws, in the order of the loops. -/
def withdrawnPrefixes (update : UpdateMsg) : (af : Af) → List (Prefix af.family.width)
  | .ipv4 => update.withdrawn
  | .ipv6 => (update.attrs.filterMap id).flatMap fun attr =>
    match attr.data with
    | .mpUnreachIpv6 withdrawn => withdrawn
    | _ => []

/-- `fsm_ipv6_route_attr` -/
def ipv6RouteAttr (attr : PAttr) : Bool :=
  attr.type != .nextHop && attr.type != .mpReachIpv6 && attr.type != .mpUnreachIpv6

/-- The attributes that a route of a family keeps from a message. -/
def routeAttrs (attrs : List (Option PAttr)) : Af → List (Option PAttr)
  | .ipv4 => attrs
  | .ipv6 => attrs.filter fun attr => attr.any ipv6RouteAttr

/-- LOCAL_PREF counts only on internal sessions. -/
def localPrefOf (update : UpdateMsg) (isIbgp : Bool) : UInt32 :=
  match isIbgp, (attrViewGet update.attrs 5).map PAttr.data with
  | true, some (.localPref value) => value
  | _, _ => 100

def originOf (update : UpdateMsg) : UInt8 :=
  match (attrViewGet update.attrs 1).map PAttr.data with
  | some (.origin origin) => origin
  | _ => 0

def medOf (update : UpdateMsg) : UInt32 :=
  match (attrViewGet update.attrs 4).map PAttr.data with
  | some (.med value) => value
  | _ => 0

/-- The route that `fsm_fill_route_attrs` and `fsm_fill_route6_attrs` complete. The update id stays
zero, so that the table assigns one. -/
def routeOf (af : Af) (source : RouterId) (update : UpdateMsg) (announced : Announced af.family.width)
    (weight : Int) (isIbgp : Bool) : Route af.family.width where
  pfx := announced.pfx
  sourceRouterId := source
  nextHop := announced.nextHop
  nextHopLinklocal := if announced.nextHopLen = 32 then announced.linkLocal else 0
  weight := weight
  isIbgp := isIbgp
  localPref := localPrefOf update isIbgp
  med := medOf update
  origin := originOf update
  asPathLen := (asPathLenAndOriginAs (attrViewGet update.attrs 2)).1
  originAs := (asPathLenAndOriginAs (attrViewGet update.attrs 2)).2
  updateId := 0
  attrs := routeAttrs update.attrs af

/-- `fsm_make_route6`, and the IPv4 code in the same place, which needs no memory. -/
def makeRoute (af : Af) (source : RouterId) (update : UpdateMsg) (announced : Announced af.family.width)
    (weight : Int) (isIbgp : Bool) (alloc : Allocator) : Except Err (Route af.family.width) × Allocator :=
  match af with
  | .ipv4 => (.ok (routeOf .ipv4 source update announced weight isIbgp), alloc)
  | .ipv6 =>
    if announced.nextHopLen ≠ 16 ∧ announced.nextHopLen ≠ 32 then (.error .invalid, alloc)
    else if (routeAttrs update.attrs .ipv6).isEmpty then
      (.ok (routeOf .ipv6 source update announced weight isIbgp), alloc)
    else
      match alloc.request with
      | (true, alloc) => (.ok (routeOf .ipv6 source update announced weight isIbgp), alloc)
      | (false, alloc) => (.error .nomem, alloc)

/-- Run a loop body over a list until it fails. -/
def untilError {Item State : Type} (step : State → Item → Err × State) : List Item → State → Err × State
  | [], state => (.ok, state)
  | item :: rest, state =>
    match step state item with
    | (.ok, state) => untilError step rest state
    | failed => failed

namespace Fsm

/-- The inbound filter of a family lets the route pass. -/
def inPermits (fsm : Fsm) (af : Af) (route : Route af.family.width) : Bool :=
  (fsm.params.inFilter af).all fun permits => permits route

/-- The body of the two announcement loops of `fsm_apply_update`. -/
def announce (fsm : Fsm) (af : Af) (update : UpdateMsg) (state : Applying)
    (announced : Announced af.family.width) : Err × Applying :=
  match makeRoute af fsm.peerBgpId update announced fsm.params.routeWeight fsm.isIbgp state.alloc with
  | (.error err, alloc) => (err, { state with alloc := alloc })
  | (.ok route, alloc) =>
    if fsm.inPermits af route then Applying.insertRecorded { state with alloc := alloc } af fsm.peerBgpId route
    else (.ok, { state with alloc := alloc })

/-- The withdrawals of one family, when it was negotiated. -/
def applyWithdrawn (fsm : Fsm) (af : Af) (update : UpdateMsg) (state : Applying) : Err × Applying :=
  if fsm.sendRoutes af then
    untilError (fun state pfx => state.recordWithdraw af fsm.peerBgpId pfx) (withdrawnPrefixes update af) state
  else (.ok, state)

/-- The announcements of one family, when it was negotiated and the message is not ignored. -/
def applyAnnounced (fsm : Fsm) (af : Af) (update : UpdateMsg) (ignored : Bool) (state : Applying) :
    Err × Applying :=
  if fsm.sendRoutes af && !ignored then untilError (fsm.announce af update) (announcedPrefixes update af) state
  else (.ok, state)

/-- The IPv4 next hop keeps the announcements of a message from being used. -/
def rejectsNextHop4 (fsm : Fsm) (update : UpdateMsg) : Bool :=
  fsm.sendIpv4Routes && !update.nlri.isEmpty &&
    match (update.findAttr .nextHop).map PAttr.data with
    | some (.nextHop nextHop) => !fsm.ipv4NextHopAcceptable nextHop fsm.isIbgp
    | _ => true

/-- An IPv6 next hop keeps the announcements of a message from being used. -/
def rejectsNextHop6 (fsm : Fsm) (update : UpdateMsg) : Bool :=
  fsm.sendIpv6Routes && (update.attrs.filterMap id).any fun attr =>
    match attr.data with
    | .mpReachIpv6 nexthop linkLocal nexthopLen nlri =>
      !nlri.isEmpty && !fsm.ipv6NextHopAcceptable nexthop linkLocal nexthopLen fsm.isIbgp
    | _ => false

/-- The four loops of `fsm_apply_update`. -/
def applyLoops (fsm : Fsm) (update : UpdateMsg) (ignored : Bool) (state : Applying) : Err × Applying :=
  match fsm.applyWithdrawn .ipv4 update state with
  | (.ok, state) =>
    match fsm.applyAnnounced .ipv4 update ignored state with
    | (.ok, state) =>
      match fsm.applyWithdrawn .ipv6 update state with
      | (.ok, state) => fsm.applyAnnounced .ipv6 update ignored state
      | failed => failed
    | failed => failed
  | failed => failed

/-- `fsm_apply_update`, with the subcode for a NOTIFICATION. The session is current throughout, since
its lock is held, and the flag that reports ignored announcements is never read. -/
def applyUpdate (fsm : Fsm) (code : MessageCode) (update : UpdateMsg) (ribs : Ribs) (alloc : Allocator) :
    Err × UInt8 × Applying :=
  match validateUpdate update with
  | some subcode => (.invalid, subcode, ⟨ribs, .empty, alloc⟩)
  | none =>
    match updateExceedsLocalAs code update fsm.params.config.localAsn fsm.params.allowLocalAs
        fsm.peerCanSendAs4Path alloc with
    | (.error err, alloc) => (err, errMalformedAttrList, ⟨ribs, .empty, alloc⟩)
    | (.ok exceeds, alloc) =>
      let ignored := exceeds || fsm.rejectsNextHop4 update || fsm.rejectsNextHop6 update
      match Journal.empty.reserveUpdate update alloc with
      | (.ok, journal, alloc) =>
        let (err, state) := fsm.applyLoops update ignored ⟨ribs, journal, alloc⟩
        (err, errMalformedAttrList, state)
      | (err, journal, alloc) => (err, errMalformedAttrList, ⟨ribs, journal, alloc⟩)

end Fsm

end Libbgp
