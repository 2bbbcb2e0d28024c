/-
Building the messages that announce a route to a peer.
-/

import Libbgp.Construction.ApplyUpdate

namespace Libbgp

open Library

namespace UpdateMsg

/-- `libbgp_update_add_attr`: one attribute for each type code, and memory for every new one. -/
def addAttr (update : UpdateMsg) (attr : PAttr) (alloc : Allocator) : Err × UpdateMsg × Allocator :=
  if (update.attrs.filterMap id).any fun held => held.typeCode == attr.typeCode then (.existing, update, alloc)
  else
    match alloc.request with
    | (true, alloc) => (.ok, { update with attrs := update.attrs ++ [some attr] }, alloc)
    | (false, alloc) => (.nomem, update, alloc)

/-- Create an attribute, with the given number of requests, and add it. -/
def addNewAttr (update : UpdateMsg) (attr : PAttr) (requests : Nat) (alloc : Allocator) :
    Err × UpdateMsg × Allocator :=
  match alloc.requests requests with
  | (true, alloc) => update.addAttr attr alloc
  | (false, alloc) => (.nomem, update, alloc)

/-- `libbgp_update_add_nlri` -/
def addNlri (update : UpdateMsg) (pfx : Prefix 32) (alloc : Allocator) : Err × UpdateMsg × Allocator :=
  if 32 < pfx.len then (.badLen, update, alloc)
  else
    match alloc.request with
    | (true, alloc) => (.ok, { update with nlri := update.nlri ++ [pfx] }, alloc)
    | (false, alloc) => (.nomem, update, alloc)

/-- `fsm_update_ensure_origin` -/
def ensureOrigin (update : UpdateMsg) (origin : UInt8) (alloc : Allocator) : Err × UpdateMsg × Allocator :=
  if (update.findAttr .origin).isSome then (.ok, update, alloc)
  else update.addNewAttr ⟨0x40, .origin origin⟩ 1 alloc

/-- `fsm_update_ensure_empty_as_path` -/
def ensureEmptyAsPath (update : UpdateMsg) (alloc : Allocator) : Err × UpdateMsg × Allocator :=
  if (update.findAttr .asPath).isSome then (.ok, update, alloc)
  else update.addNewAttr ⟨0x40, .asPath [] true⟩ 1 alloc

/-- Write a value into the first NEXT_HOP attribute. -/
def replaceNextHop (nextHop : BitVec 32) : List (Option PAttr) → List (Option PAttr)
  | [] => []
  | none :: rest => none :: replaceNextHop nextHop rest
  | some attr :: rest =>
    if attr.type = .nextHop then some { attr with data := .nextHop nextHop } :: rest
    else some attr :: replaceNextHop nextHop rest

/-- `fsm_update_set_next_hop4` -/
def setNextHop4 (update : UpdateMsg) (nextHop : BitVec 32) (alloc : Allocator) : Err × UpdateMsg × Allocator :=
  if (update.findAttr .nextHop).isSome then
    (.ok, { update with attrs := replaceNextHop nextHop update.attrs }, alloc)
  else update.addNewAttr ⟨0x40, .nextHop nextHop⟩ 1 alloc

/-- `fsm_update_add_mp_reach6`: the attribute and its prefix array are requested first. -/
def addMpReach6 (update : UpdateMsg) (pfx : Prefix 128) (nextHop linkLocal : BitVec 128) (alloc : Allocator) :
    Err × UpdateMsg × Allocator :=
  update.addNewAttr
    ⟨0x80, .mpReachIpv6 nextHop linkLocal (if linkLocal = 0 then 16 else 32) [pfx]⟩ 2 alloc

/-- The attribute loop of the two functions that turn a route into a message. -/
def addRouteAttrs (keep : PAttr → Bool) : List (Option PAttr) → UpdateMsg → Allocator → Err × UpdateMsg × Allocator
  | [], update, alloc => (.ok, update, alloc)
  | none :: _, update, alloc => (.invalid, update, alloc)
  | some attr :: rest, update, alloc =>
    if keep attr then
      match update.addAttr attr alloc with
      | (.ok, update, alloc) | (.existing, update, alloc) => addRouteAttrs keep rest update alloc
      | failed => failed
    else addRouteAttrs keep rest update alloc

end UpdateMsg

/-- `fsm_ipv4_route_attr` -/
def ipv4RouteAttr (attr : PAttr) : Bool := attr.type != .mpReachIpv6 && attr.type != .mpUnreachIpv6

/-- The attributes of a route that go into a message for its family. -/
def exportsAttr : Af → PAttr → Bool
  | .ipv4 => ipv4RouteAttr
  | .ipv6 => ipv6RouteAttr

/-- The last step of the two functions: the next hop and the prefix. -/
def addReachable (af : Af) (route : Route af.family.width) (update : UpdateMsg) (alloc : Allocator) :
    Err × UpdateMsg × Allocator :=
  match af with
  | .ipv4 =>
    match update.setNextHop4 route.nextHop alloc with
    | (.ok, update, alloc) => update.addNlri route.pfx alloc
    | failed => failed
  | .ipv6 => update.addMpReach6 route.pfx route.nextHop route.nextHopLinklocal alloc

/-- `fsm_update_from_route4` and `fsm_update_from_route6` -/
def updateFromRoute (af : Af) (route : Route af.family.width) (alloc : Allocator) : Err × UpdateMsg × Allocator :=
  if af.family.width < route.pfx.len then (.invalid, .empty, alloc)
  else
    match UpdateMsg.addRouteAttrs (exportsAttr af) route.attrs .empty alloc with
    | (.ok, update, alloc) =>
      match update.ensureOrigin route.origin alloc with
      | (.ok, update, alloc) =>
        match update.ensureEmptyAsPath alloc with
        | (.ok, update, alloc) => addReachable af route update alloc
        | failed => failed
      | failed => failed
    | failed => failed

def flagOptional : UInt8 := 0x80
def flagTransitive : UInt8 := 0x40
def flagPartial : UInt8 := 0x20

/-- `libbgp_pattr_prepare_for_ebgp_forward` -/
def PAttr.prepareForEbgpForward (attr : PAttr) : PAttr :=
  if attr.type = .unknown ∧ attr.flags &&& flagOptional ≠ 0 ∧ attr.flags &&& flagTransitive ≠ 0 then
    { attr with flags := attr.flags ||| flagPartial }
  else attr

/-- An attribute that is passed on to a peer. -/
def PAttr.forwarded (attr : PAttr) (isIbgp : Bool) : Bool :=
  (attr.flags &&& flagTransitive != 0 || attr.type == .mpReachIpv6 || attr.type == .mpUnreachIpv6) &&
    (isIbgp || attr.type != .localPref)

/-- `fsm_update_prepare_forward_attrs` -/
def UpdateMsg.prepareForwardAttrs (update : UpdateMsg) (isIbgp : Bool) : Except Err UpdateMsg :=
  if update.attrs.any Option.isNone then .error .invalid
  else
    let kept := (update.attrs.filterMap id).filter (·.forwarded isIbgp)
    .ok { update with attrs := kept.map fun attr => some (if isIbgp then attr else attr.prepareForEbgpForward) }

namespace Fsm

/-- Our next hops stay on an internal session unless they are to be altered. -/
def keepsNexthop (fsm : Fsm) : Bool := fsm.isIbgp && !fsm.params.ibgpAlterNexthop

/-- `fsm_alter_nexthop4` -/
def alterNexthop4 (fsm : Fsm) (update : UpdateMsg) (alloc : Allocator) : Err × UpdateMsg × Allocator :=
  if update.nlri.isEmpty || fsm.keepsNexthop then (.ok, update, alloc)
  else
    let usesDefault := fsm.params.forceDefaultNexthop .ipv4 ||
      match (update.findAttr .nextHop).map PAttr.data with
      | some (.nextHop nextHop) => !addrMatches ipv4 (fsm.params.peeringLan .ipv4) nextHop
      | _ => true
    if !usesDefault then (.ok, update, alloc)
    else if !validAddr4 fsm.params.defaultNexthop4 then (.invalid, update, alloc)
    else update.setNextHop4 fsm.params.defaultNexthop4 alloc

/-- The next hop of this attribute is replaced by the configured one. -/
def replacesNexthop6 (fsm : Fsm) (attr : PAttr) : Bool :=
  match attr.data with
  | .mpReachIpv6 nexthop _ _ nlri =>
    !nlri.isEmpty && (fsm.params.forceDefaultNexthop .ipv6 || !addrMatches ipv6 (fsm.params.peeringLan .ipv6) nexthop)
  | _ => false

/-- The configured IPv6 next hop with its link-local part. -/
def withDefaultNexthop6 (fsm : Fsm) (attr : PAttr) : PAttr :=
  match attr.data with
  | .mpReachIpv6 _ _ _ nlri =>
    let linkLocal := fsm.params.defaultNexthop6Linklocal
    { attr with data := .mpReachIpv6 fsm.params.defaultNexthop6 linkLocal (if linkLocal = 0 then 16 else 32) nlri }
  | _ => attr

/-- `fsm_alter_nexthop6` -/
def alterNexthop6 (fsm : Fsm) (update : UpdateMsg) : Except Err UpdateMsg :=
  if fsm.keepsNexthop || !(update.attrs.filterMap id).any fsm.replacesNexthop6 then .ok update
  else
    let linkLocal := fsm.params.defaultNexthop6Linklocal
    if !validAddr6 fsm.params.defaultNexthop6 || (linkLocal != 0 && !linklocalAddr6 linkLocal) then .error .invalid
    else
      let alter := fun attr => if fsm.replacesNexthop6 attr then fsm.withDefaultNexthop6 attr else attr
      .ok { update with attrs := update.attrs.map (Option.map alter) }

/-- The changes of `fsm_send_prepared_update` to a copy that announces something. -/
def prepareAdvertisements (fsm : Fsm) (code : MessageCode) (update : UpdateMsg) (alloc : Allocator) :
    Except Err UpdateMsg × Allocator :=
  let wide := fsm.peer4byteAsn
  match update.prepareForwardAttrs fsm.isIbgp with
  | .error err => (.error err, alloc)
  | .ok update =>
    match fsm.alterNexthop4 update alloc with
    | (.ok, update, alloc) =>
      match fsm.alterNexthop6 update with
      | .error err => (.error err, alloc)
      | .ok update =>
        match (if wide then code.restoreAsPath else code.downgradeAsPath).run update alloc with
        | (.error err, alloc) => (.error err, alloc)
        | (.ok update, alloc) =>
          match (if wide then code.restoreAggregator else code.downgradeAggregator).run update alloc with
          | (.error err, alloc) => (.error err, alloc)
          | (.ok update, alloc) =>
            if fsm.isIbgp then (.ok update, alloc)
            else (code.prependAsn fsm.params.config.localAsn wide).run update alloc
    | (err, _, alloc) => (.error err, alloc)

/-- The message of `fsm_send_prepared_update`. -/
def prepareUpdate (fsm : Fsm) (code : MessageCode) (update : UpdateMsg) (alloc : Allocator) :
    Except Err UpdateMsg × Allocator :=
  match code.cloneUpdate.run update alloc with
  | (.error err, alloc) => (.error err, alloc)
  | (.ok copy, alloc) =>
    if copy.hasAdvertisements then fsm.prepareAdvertisements code copy alloc else (.ok copy, alloc)

end Fsm

/-- The next hop that a message has for a prefix. For IPv6 it is in the attribute that
`fsm_find_mp_reach6_for_prefix` finds. -/
def announcedFor (update : UpdateMsg) : (af : Af) → Prefix af.family.width → Option (Announced af.family.width)
  | .ipv4, pfx => some ⟨pfx, nextHopOf update, 0, 0⟩
  | .ipv6, pfx => (announcedPrefixes update .ipv6).find? fun announced => announced.pfx == pfx

namespace Fsm

/-- The route that a session builds from a route event. -/
def eventRoute (fsm : Fsm) (af : Af) (source : RouterId) (pfx : Prefix af.family.width) (update : UpdateMsg)
    (alloc : Allocator) : Except Err (Route af.family.width) × Allocator :=
  match announcedFor update af pfx with
  | none => (.error .invalid, alloc)
  | some announced => makeRoute af source update announced fsm.params.routeWeight fsm.isIbgp alloc

/-- `fsm_out_filter4_permits`: the preference is read as on an internal session, but the route does not
count as internal. -/
def outFilter4Permits (fsm : Fsm) (source : RouterId) (pfx : Prefix 32) (update : UpdateMsg) : Bool :=
  (fsm.params.outFilter .ipv4).all fun permits =>
    permits { routeOf .ipv4 source update ⟨pfx, nextHopOf update, 0, 0⟩ fsm.params.routeWeight true with
      isIbgp := false }

/-- The route that `fsm_out_filter6_permits` looks at when no attribute has the prefix. -/
def bareRoute6 (fsm : Fsm) (source : RouterId) (pfx : Prefix 128) (update : UpdateMsg) : Route 128 where
  pfx := pfx
  sourceRouterId := source
  nextHop := 0
  nextHopLinklocal := 0
  weight := fsm.params.routeWeight
  isIbgp := fsm.isIbgp
  localPref := 0
  med := 0
  origin := 0
  asPathLen := 0
  originAs := 0
  updateId := 0
  attrs := update.attrs

/-- `fsm_out_filter6_permits`: a route that cannot be built is denied. -/
def outFilter6Permits (fsm : Fsm) (source : RouterId) (pfx : Prefix 128) (update : UpdateMsg) (alloc : Allocator) :
    Bool × Allocator :=
  match fsm.params.outFilter .ipv6 with
  | none => (true, alloc)
  | some permits =>
    match announcedFor update .ipv6 pfx with
    | none => (permits (fsm.bareRoute6 source pfx update), alloc)
    | some announced =>
      match makeRoute .ipv6 source update announced fsm.params.routeWeight fsm.isIbgp alloc with
      | (.ok route, alloc) => (permits route, alloc)
      | (.error _, alloc) => (false, alloc)

/-- The outbound filter of a family about a route event. -/
def outPermits (fsm : Fsm) (af : Af) (source : RouterId) (pfx : Prefix af.family.width) (update : UpdateMsg)
    (alloc : Allocator) : Bool × Allocator :=
  match af with
  | .ipv4 => (fsm.outFilter4Permits source pfx update, alloc)
  | .ipv6 => fsm.outFilter6Permits source pfx update alloc

/-- The message of `fsm_send_route_added4` and `fsm_send_route_added6`. -/
def routeAddedMessage (fsm : Fsm) (code : MessageCode) (af : Af) (source : RouterId) (pfx : Prefix af.family.width)
    (update : UpdateMsg) (alloc : Allocator) : Except Err UpdateMsg × Allocator :=
  match fsm.eventRoute af source pfx update alloc with
  | (.error err, alloc) => (.error err, alloc)
  | (.ok route, alloc) =>
    match updateFromRoute af route alloc with
    | (.ok, update, alloc) => fsm.prepareUpdate code update alloc
    | (err, _, alloc) => (.error err, alloc)

/-- The message of the initial advertisement of a stored route. -/
def advertisedMessage (fsm : Fsm) (code : MessageCode) (af : Af) (route : Route af.family.width)
    (alloc : Allocator) : Except Err UpdateMsg × Allocator :=
  match updateFromRoute af route alloc with
  | (.ok, update, alloc) => fsm.prepareUpdate code update alloc
  | (err, _, alloc) => (.error err, alloc)

end Fsm

/-- The message of `fsm_send_withdraw4` and `fsm_send_withdraw6`. -/
def withdrawMessage (af : Af) (pfx : Prefix af.family.width) (alloc : Allocator) : Except Err UpdateMsg × Allocator :=
  match af with
  | .ipv4 =>
    if 32 < pfx.len then (.error .badLen, alloc)
    else
      match alloc.request with
      | (true, alloc) => (.ok { UpdateMsg.empty with withdrawn := [pfx] }, alloc)
      | (false, alloc) => (.error .nomem, alloc)
  | .ipv6 =>
    match UpdateMsg.empty.addNewAttr ⟨0x80, .mpUnreachIpv6 [pfx]⟩ 2 alloc with
    | (.ok, update, alloc) => (.ok update, alloc)
    | (err, _, alloc) => (.error err, alloc)

end Libbgp
