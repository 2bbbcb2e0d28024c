/-
Route filters: ordered rules about the prefix and the attributes of a route.
-/

import Libbgp.Construction.Route

namespace Libbgp

/-- `libbgp_prefix4_includes` and `libbgp_prefix6_includes` -/
def Prefix.includes (family : AddrFamily) (outer inner : Prefix family.width) : Bool :=
  if family.width < outer.len || family.width < inner.len then false
  else if inner.len < outer.len then false
  else (inner.addr &&& family.cidrToMask outer.len) == (outer.addr &&& family.cidrToMask outer.len)

/-- How a rule compares its prefix with that of a route. -/
inductive PrefixMatch where
  | plain
  | exact
  | moreSpecific
  | moreOrEqual
  | lessSpecific
  | lessOrEqual
  deriving DecidableEq, Repr

def PrefixMatch.matches (family : AddrFamily) (rule route : Prefix family.width) : PrefixMatch → Bool
  | .plain | .moreOrEqual => rule.includes family route
  | .exact => rule == route
  | .moreSpecific => decide (rule.len < route.len) && rule.includes family route
  | .lessSpecific => decide (route.len < rule.len) && route.includes family rule
  | .lessOrEqual => route.includes family rule

/-- The match types of a rule with their operands. -/
inductive FilterMatch where
  | network (af : Af) (kind : PrefixMatch) (pfx : Prefix af.family.width)
  | asPathContains (asn : UInt32)
  | asPathNotContains (asn : UInt32)
  | asPathOrigin (asn : UInt32)
  | asPathNotOrigin (asn : UInt32)
  | communityContains (community : UInt32)
  | communityNotContains (community : UInt32)
  | any

inductive FilterDecision where
  | deny
  | permit
  deriving DecidableEq, Repr

structure FilterRule where
  matchType : FilterMatch
  decision : FilterDecision

/-- The rules in the order in which they were added. -/
abbrev Filter := List FilterRule

namespace PAttr

/-- `as_path_contains` -/
def asPathContains (attr : PAttr) (asn : UInt32) : Bool :=
  match attr.data with
  | .asPath segments _ | .as4Path segments _ => segments.any fun segment => segment.asns.contains asn
  | _ => false

/-- `as_path_origin_asn`: the last AS of the last sequence that is not empty. -/
def asPathOriginAsn (attr : PAttr) : Option UInt32 :=
  match attr.data with
  | .asPath segments _ | .as4Path segments _ =>
    segments.foldl (fun origin segment => if segment.type = 2 then segment.asns.getLast?.or origin else origin) none
  | _ => none

/-- `community_contains` -/
def communityContains (attr : PAttr) (community : UInt32) : Bool :=
  match attr.data with
  | .community values => values.contains community
  | _ => false

/-- `filter_expected_type_code` -/
def expectedTypeCode (attr : PAttr) : UInt8 :=
  match attr.type with
  | .asPath => 2
  | .as4Path => 17
  | .community => 8
  | _ => 0

end PAttr

/-- `filter_attr_state_t`: the attributes that are there, and what keeps the lookup by type code from being
used. -/
structure FilterAttrState where
  attrs : List (Option PAttr)
  duplicateFound : Bool
  typeCodeMismatch : Bool
  hasAsPathByType : Bool
  hasAs4PathByType : Bool

/-- `filter_attr_state_build` -/
def filterAttrStateBuild (attrs : List (Option PAttr)) : FilterAttrState :=
  let present := attrs.filterMap id
  ⟨attrs, !decide ((present.map PAttr.typeCode).Nodup),
    present.any fun attr => attr.expectedTypeCode != 0 && attr.typeCode != attr.expectedTypeCode,
    present.any (·.type == .asPath), present.any (·.type == .as4Path)⟩

namespace FilterAttrState

/-- The attributes are searched one by one. -/
def scans (state : FilterAttrState) : Bool := state.duplicateFound || state.typeCodeMismatch

/-- The attributes of the two kinds of AS paths. -/
def asPath (state : FilterAttrState) : Option PAttr := attrViewGet state.attrs 2

def as4Path (state : FilterAttrState) : Option PAttr := attrViewGet state.attrs 17

/-- `attr_view_has_asn` -/
def hasAsn (state : FilterAttrState) (asn : UInt32) : Bool :=
  if state.scans then (state.attrs.filterMap id).any (·.asPathContains asn)
  else state.asPath.any (·.asPathContains asn) || state.as4Path.any (·.asPathContains asn)

/-- `attr_view_has_community` -/
def hasCommunity (state : FilterAttrState) (community : UInt32) : Bool :=
  if state.scans then (state.attrs.filterMap id).any (·.communityContains community)
  else (attrViewGet state.attrs 8).any (·.communityContains community)

/-- `attr_view_origin_asn`: with both kinds of paths the first one that has an origin decides. -/
def originAsn (state : FilterAttrState) : Option UInt32 :=
  if state.scans || (state.hasAsPathByType && state.hasAs4PathByType) then
    (state.attrs.filterMap id).findSome? PAttr.asPathOriginAsn
  else (state.asPath.bind PAttr.asPathOriginAsn).or (state.as4Path.bind PAttr.asPathOriginAsn)

end FilterAttrState

/-- `filter_rule_matches` and `filter_rule_matches6`: a prefix of the other family never matches. -/
def FilterRule.matches (rule : FilterRule) (af : Af) (pfx : Prefix af.family.width) (state : FilterAttrState) : Bool :=
  match rule.matchType with
  | .network .ipv4 kind network =>
    match af, pfx with
    | .ipv4, pfx => kind.matches ipv4 network pfx
    | .ipv6, _ => false
  | .network .ipv6 kind network =>
    match af, pfx with
    | .ipv4, _ => false
    | .ipv6, pfx => kind.matches ipv6 network pfx
  | .asPathContains asn => state.hasAsn asn
  | .asPathNotContains asn => !state.hasAsn asn
  | .asPathOrigin asn => state.originAsn.any (· == asn)
  | .asPathNotOrigin asn => state.originAsn.any (· != asn)
  | .communityContains community => state.hasCommunity community
  | .communityNotContains community => !state.hasCommunity community
  | .any => true

/-- `libbgp_filter_apply_route` and `libbgp_filter_apply_route6`: the rule that was added last decides
among those that match. -/
def Filter.applyRoute (filter : Filter) {af : Af} (route : Route af.family.width) (fallback : FilterDecision) :
    FilterDecision :=
  let state := filterAttrStateBuild route.attrs
  ((filter.reverse.find? fun rule => rule.matches af route.pfx state).map FilterRule.decision).getD fallback

/-- A filter as a session uses it: what no rule matches is permitted. -/
def Filter.permits (filter : Filter) {af : Af} (route : Route af.family.width) : Bool :=
  filter.applyRoute route .permit == .permit

end Libbgp
