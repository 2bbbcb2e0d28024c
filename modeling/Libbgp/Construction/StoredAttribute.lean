/-
Path attributes as they lie in memory, where arrays may be missing and type codes may be wrong, and the
route filters over them.
-/

import Libbgp.Construction.Filter

namespace Libbgp

/-- A counted array, whose pointer may be missing. -/
inductive Block (A : Type) where
  | missing (count : Nat)
  | held (items : List A)
  deriving DecidableEq

namespace Block

variable {A B : Type}

def count : Block A → Nat
  | .missing count => count
  | .held items => items.length

/-- Elements are counted where there is no array. -/
def broken : Block A → Bool
  | .missing count => count != 0
  | .held _ => false

def items : Block A → List A
  | .missing _ => []
  | .held items => items

end Block

/-- `libbgp_as_path_segment_t` -/
structure StoredSegment where
  type : UInt8
  asns : Block UInt32
  deriving DecidableEq

/-- The kind of an attribute with its member of the union. A kind outside the enumeration has none. -/
inductive StoredData where
  | origin (origin : UInt8)
  | asPath (segments : Block StoredSegment) (is4b : Bool)
  | nextHop (nextHop : BitVec 32)
  | med (value : UInt32)
  | localPref (value : UInt32)
  | atomicAggregate
  | aggregator (asn : UInt32) (routerId : RouterId) (is4b : Bool)
  | community (values : Block UInt32)
  | as4Path (segments : Block StoredSegment) (is4b : Bool)
  | as4Aggregator (asn : UInt32) (routerId : RouterId) (is4b : Bool)
  | mpReachIpv6 (nexthop linkLocal : BitVec 128) (nexthopLen : Nat) (nlri : Block (Prefix 128))
  | mpUnreachIpv6 (withdrawn : Block (Prefix 128))
  | unknown (value : Block UInt8)
  | foreign (kind : Nat)
  deriving DecidableEq

/-- `libbgp_pattr_t` without its reference count. -/
structure StoredAttr where
  flags : UInt8
  typeCode : UInt8
  data : StoredData
  deriving DecidableEq

def StoredAttr.type (attr : StoredAttr) : Option PAttrType :=
  match attr.data with
  | .origin _ => some .origin
  | .asPath _ _ => some .asPath
  | .nextHop _ => some .nextHop
  | .med _ => some .med
  | .localPref _ => some .localPref
  | .atomicAggregate => some .atomicAggregate
  | .aggregator _ _ _ => some .aggregator
  | .community _ => some .community
  | .as4Path _ _ => some .as4Path
  | .as4Aggregator _ _ _ => some .as4Aggregator
  | .mpReachIpv6 _ _ _ _ => some .mpReachIpv6
  | .mpUnreachIpv6 _ => some .mpUnreachIpv6
  | .unknown _ => some .unknown
  | .foreign _ => none

/-- A decoded attribute in memory: every array is there. -/
def AsPathSegment.stored (segment : AsPathSegment) : StoredSegment := ⟨segment.type, .held segment.asns⟩

def PAttrData.stored : PAttrData → StoredData
  | .origin value => .origin value
  | .asPath segments is4b => .asPath (.held (segments.map AsPathSegment.stored)) is4b
  | .nextHop addr => .nextHop addr
  | .med value => .med value
  | .localPref value => .localPref value
  | .atomicAggregate => .atomicAggregate
  | .aggregator asn routerId is4b => .aggregator asn routerId is4b
  | .community values => .community (.held values)
  | .as4Path segments is4b => .as4Path (.held (segments.map AsPathSegment.stored)) is4b
  | .as4Aggregator asn routerId is4b => .as4Aggregator asn routerId is4b
  | .mpReachIpv6 global linkLocal nexthopLen nlri => .mpReachIpv6 global linkLocal nexthopLen (.held nlri)
  | .mpUnreachIpv6 withdrawn => .mpUnreachIpv6 (.held withdrawn)
  | .unknown _ value _ => .unknown (.held value)

def PAttr.stored (attr : PAttr) : StoredAttr := ⟨attr.flags, attr.typeCode, attr.data.stored⟩

namespace StoredAttr

/-- The loop of `as_path_contains`: a segment without its array ends the search. -/
def segmentsContain (asn : UInt32) : List StoredSegment → Bool
  | [] => false
  | segment :: rest =>
    if segment.asns.broken then false
    else segment.asns.items.contains asn || segmentsContain asn rest

/-- `as_path_contains` -/
def asPathContains (attr : StoredAttr) (asn : UInt32) : Bool :=
  match attr.data with
  | .asPath segments _ | .as4Path segments _ => !segments.broken && segmentsContain asn segments.items
  | _ => false

/-- The loop of `as_path_origin_asn`, with the origin that was found so far. -/
def segmentsOrigin : Option UInt32 → List StoredSegment → Option UInt32
  | found, [] => found
  | found, segment :: rest =>
    if segment.type ≠ 2 ∨ segment.asns.count = 0 then segmentsOrigin found rest
    else if segment.asns.broken then none
    else segmentsOrigin segment.asns.items.getLast? rest

/-- `as_path_origin_asn` -/
def asPathOriginAsn (attr : StoredAttr) : Option UInt32 :=
  match attr.data with
  | .asPath segments _ | .as4Path segments _ => if segments.broken then none else segmentsOrigin none segments.items
  | _ => none

/-- `community_contains` -/
def communityContains (attr : StoredAttr) (community : UInt32) : Bool :=
  match attr.data with
  | .community values => !values.broken && values.items.contains community
  | _ => false

/-- `filter_expected_type_code` -/
def expectedTypeCode (attr : StoredAttr) : UInt8 :=
  match attr.data with
  | .asPath _ _ => 2
  | .as4Path _ _ => 17
  | .community _ => 8
  | _ => 0

end StoredAttr

/-- `bgp_attr_view_t` -/
structure AttrView where
  byType : UInt8 → Option StoredAttr
  duplicateFound : Bool

namespace AttrView

def init : AttrView := ⟨fun _ => none, false⟩

/-- `bgp_attr_view_add`: the first attribute with a type code stays. -/
def add (view : AttrView) (attr : StoredAttr) : AttrView :=
  if (view.byType attr.typeCode).isSome then { view with duplicateFound := true }
  else { view with byType := Function.update view.byType attr.typeCode (some attr) }

end AttrView

/-- `filter_attr_state_t` -/
structure StoredAttrState where
  view : AttrView
  typeCodeMismatch : Bool
  hasAsPathByType : Bool
  hasAs4PathByType : Bool

/-- The attributes of a route. Entries of the array may be missing too. -/
abbrev StoredAttrs := Block (Option StoredAttr)

def storedAttrs (attrs : List (Option PAttr)) : StoredAttrs := .held (attrs.map (Option.map PAttr.stored))

namespace StoredAttrState

def init : StoredAttrState := ⟨.init, false, false, false⟩

/-- The body of the loop of `filter_attr_state_build`. -/
def add (state : StoredAttrState) : Option StoredAttr → StoredAttrState
  | none => state
  | some attr =>
    { view := state.view.add attr
      typeCodeMismatch := state.typeCodeMismatch ||
        (attr.expectedTypeCode != 0 && attr.typeCode != attr.expectedTypeCode)
      hasAsPathByType := state.hasAsPathByType || attr.type == some .asPath
      hasAs4PathByType := state.hasAs4PathByType || attr.type == some .as4Path }

/-- `filter_attr_state_build` -/
def build (attrs : StoredAttrs) : StoredAttrState := attrs.items.foldl add init

end StoredAttrState

namespace StoredAttrs

/-- `attrs_have_asn` -/
def haveAsn (attrs : StoredAttrs) (asn : UInt32) : Bool := attrs.items.any fun attr => attr.any (·.asPathContains asn)

/-- `attrs_have_community` -/
def haveCommunity (attrs : StoredAttrs) (community : UInt32) : Bool :=
  attrs.items.any fun attr => attr.any (·.communityContains community)

/-- `attrs_origin_asn` -/
def originAsn (attrs : StoredAttrs) : Option UInt32 := attrs.items.findSome? fun attr => attr.bind (·.asPathOriginAsn)

end StoredAttrs

namespace StoredAttrState

/-- The lookup by type code is not used. -/
def scans (state : StoredAttrState) : Bool := state.view.duplicateFound || state.typeCodeMismatch

/-- `attr_view_has_asn` -/
def hasAsn (state : StoredAttrState) (attrs : StoredAttrs) (asn : UInt32) : Bool :=
  if state.scans then attrs.haveAsn asn
  else (state.view.byType 2).any (·.asPathContains asn) || (state.view.byType 17).any (·.asPathContains asn)

/-- `attr_view_has_community` -/
def hasCommunity (state : StoredAttrState) (attrs : StoredAttrs) (community : UInt32) : Bool :=
  if state.scans then attrs.haveCommunity community else (state.view.byType 8).any (·.communityContains community)

/-- `attr_view_origin_asn` -/
def originAsn (state : StoredAttrState) (attrs : StoredAttrs) : Option UInt32 :=
  if state.scans || (state.hasAsPathByType && state.hasAs4PathByType) then attrs.originAsn
  else ((state.view.byType 2).bind (·.asPathOriginAsn)).or ((state.view.byType 17).bind (·.asPathOriginAsn))

end StoredAttrState

/-- The switch of `filter_rule_matches` and `filter_rule_matches6`, over the three things that a rule may
ask about the attributes. -/
def FilterMatch.holds (hasAsn : UInt32 → Bool) (origin : Option UInt32) (hasCommunity : UInt32 → Bool) {af : Af}
    (pfx : Prefix af.family.width) : FilterMatch → Bool
  | .network .ipv4 kind own =>
    match af, pfx with
    | .ipv4, pfx => kind.matches ipv4 own pfx
    | .ipv6, _ => false
  | .network .ipv6 kind own =>
    match af, pfx with
    | .ipv4, _ => false
    | .ipv6, pfx => kind.matches ipv6 own pfx
  | .asPathContains asn => hasAsn asn
  | .asPathNotContains asn => !hasAsn asn
  | .asPathOrigin asn => origin.any (· == asn)
  | .asPathNotOrigin asn => origin.any (· != asn)
  | .communityContains community => hasCommunity community
  | .communityNotContains community => !hasCommunity community
  | .any => true

/-- A rule, whose match type may lie outside the enumeration. -/
structure StoredRule where
  matchType : Option FilterMatch
  decision : FilterDecision

def FilterRule.stored (rule : FilterRule) : StoredRule := ⟨some rule.matchType, rule.decision⟩

/-- `filter_rule_matches` and `filter_rule_matches6` -/
def StoredRule.matches (rule : StoredRule) {af : Af} (pfx : Prefix af.family.width) (state : StoredAttrState)
    (attrs : StoredAttrs) :
    Bool :=
  rule.matchType.any (·.holds (state.hasAsn attrs) (state.originAsn attrs) (state.hasCommunity attrs) pfx)

/-- `libbgp_filter_apply_route` and `libbgp_filter_apply_route6` -/
def StoredRule.applyRoute (rules : List StoredRule) {af : Af} (pfx : Prefix af.family.width) (attrs : StoredAttrs)
    (fallback : FilterDecision) : FilterDecision :=
  let state := StoredAttrState.build attrs
  ((rules.reverse.find? fun rule => rule.matches pfx state attrs).map StoredRule.decision).getD fallback

end Libbgp
