/-
Stored routes, the preference between two of them, and the address tests of the route tables.
-/

import Libbgp.Construction.Attribute

namespace Libbgp

/-- A route. Only IPv6 routes use the link-local next hop; the IPv4 code has no such field. -/
structure Route (width : Nat) where
  pfx : Prefix width
  sourceRouterId : RouterId
  nextHop : BitVec width
  nextHopLinklocal : BitVec width
  weight : Int
  isIbgp : Bool
  localPref : UInt32
  med : UInt32
  origin : UInt8
  asPathLen : Nat
  originAs : UInt32
  updateId : UInt64
  attrs : List (Option PAttr)
  deriving DecidableEq

/-- The first AS of the first nonempty AS_SEQUENCE in a list of segments. -/
def firstSequenceAs : List AsPathSegment → Option UInt32
  | [] => none
  | segment :: rest =>
    match segment.type == 2, segment.asns with
    | true, asn :: _ => some asn
    | _, _ => firstSequenceAs rest

/-- The neighbour AS comes from the first AS_PATH attribute only. -/
def neighborAsOf : List (Option PAttr) → Option UInt32
  | [] => none
  | none :: rest => neighborAsOf rest
  | some attr :: rest =>
    match attr.data with
    | .asPath segments _ => firstSequenceAs segments
    | _ => neighborAsOf rest

def ribNeighborAs {width : Nat} (route : Route width) : Option UInt32 :=
  neighborAsOf route.attrs

/-- Router identifiers are compared byte by byte in memory order. -/
def bgpRouterIdLess (a b : RouterId) : Bool :=
  decide (addrBytes a < addrBytes b)

/-- A stored preference of zero counts as the default of 100. -/
def effectiveLocalPref {width : Nat} (route : Route width) : UInt32 :=
  if route.localPref = 0 then 100 else route.localPref

/-- MED values are compared only between routes of one neighbour AS. -/
def medComparable {width : Nat} (a b : Route width) : Bool :=
  a.med != b.med && (ribNeighborAs a).isSome && (ribNeighborAs b).isSome && ribNeighborAs a == ribNeighborAs b

/-- The first route is preferred to the second one. -/
def ribBetter {width : Nat} (a b : Route width) : Bool :=
  if a.weight ≠ b.weight then decide (b.weight < a.weight)
  else if effectiveLocalPref a ≠ effectiveLocalPref b then
    decide (effectiveLocalPref b < effectiveLocalPref a)
  else if a.asPathLen ≠ b.asPathLen then decide (a.asPathLen < b.asPathLen)
  else if a.origin ≠ b.origin then decide (a.origin < b.origin)
  else if medComparable a b then decide (a.med < b.med)
  else if a.isIbgp ≠ b.isIbgp then !a.isIbgp
  else if a.updateId ≠ b.updateId then decide (a.updateId < b.updateId)
  else bgpRouterIdLess a.sourceRouterId b.sourceRouterId

/-- The prefix with its host bits cleared; an impossible length gives the zero prefix. -/
def lpmNormalizePrefix (family : AddrFamily) (pfx : Prefix family.width) : Prefix family.width :=
  if family.width < pfx.len then ⟨0, 0⟩
  else { pfx with addr := pfx.addr &&& family.cidrToMask pfx.len }

/-- The prefix covers an address. -/
def addrMatches (family : AddrFamily) (pfx : Prefix family.width) (dest : BitVec family.width) : Bool :=
  if family.width < pfx.len then false
  else (dest &&& family.cidrToMask pfx.len) == (pfx.addr &&& family.cidrToMask pfx.len)

end Libbgp
