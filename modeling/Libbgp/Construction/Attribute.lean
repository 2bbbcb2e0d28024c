/-
Path attributes and UPDATE messages as the library stores them.
-/

import Libbgp.Construction.Prefix

namespace Libbgp

/-- One AS_PATH segment; type 2 is an AS_SEQUENCE. -/
structure AsPathSegment where
  type : UInt8
  asns : List UInt32
  deriving DecidableEq, Repr

/-- The AS number that stands for one that needs four bytes. -/
def asTrans : UInt32 := 23456

/-- The type codes that have a decoded form whatever their contents. The two multiprotocol codes are
not among them: the parser keeps an unsupported address family as an unknown attribute. -/
def decodedCodes : List UInt8 := [1, 2, 3, 4, 5, 6, 7, 8, 17, 18]

/-- The decoded value of an attribute. An unknown attribute keeps the type code it came with. -/
inductive PAttrData where
  | origin (origin : UInt8)
  | asPath (segments : List AsPathSegment) (is4b : Bool)
  | nextHop (nextHop : BitVec 32)
  | med (value : UInt32)
  | localPref (value : UInt32)
  | atomicAggregate
  | aggregator (asn : UInt32) (routerId : RouterId) (is4b : Bool)
  | community (values : List UInt32)
  | as4Path (segments : List AsPathSegment) (is4b : Bool)
  | as4Aggregator (asn : UInt32) (routerId : RouterId) (is4b : Bool)
  | mpReachIpv6 (nexthop linkLocal : BitVec 128) (nexthopLen : Nat) (nlri : List (Prefix 128))
  | mpUnreachIpv6 (withdrawn : List (Prefix 128))
  | unknown (code : UInt8) (value : List UInt8) (undecoded : code ∉ decodedCodes)
  deriving DecidableEq

/-- The kinds of attributes, without their values. -/
inductive PAttrType where
  | origin | asPath | nextHop | med | localPref | atomicAggregate | aggregator | community
  | as4Path | as4Aggregator | mpReachIpv6 | mpUnreachIpv6 | unknown
  deriving DecidableEq, Repr

/-- A path attribute. -/
structure PAttr where
  flags : UInt8
  data : PAttrData
  deriving DecidableEq

def PAttr.type (attr : PAttr) : PAttrType :=
  match attr.data with
  | .origin _ => .origin
  | .asPath _ _ => .asPath
  | .nextHop _ => .nextHop
  | .med _ => .med
  | .localPref _ => .localPref
  | .atomicAggregate => .atomicAggregate
  | .aggregator _ _ _ => .aggregator
  | .community _ => .community
  | .as4Path _ _ => .as4Path
  | .as4Aggregator _ _ _ => .as4Aggregator
  | .mpReachIpv6 _ _ _ _ => .mpReachIpv6
  | .mpUnreachIpv6 _ => .mpUnreachIpv6
  | .unknown _ _ _ => .unknown

/-- The stored type code, which the parser and the constructor derive from the kind. -/
def PAttr.typeCode (attr : PAttr) : UInt8 :=
  match attr.data with
  | .origin _ => 1
  | .asPath _ _ => 2
  | .nextHop _ => 3
  | .med _ => 4
  | .localPref _ => 5
  | .atomicAggregate => 6
  | .aggregator _ _ _ => 7
  | .community _ => 8
  | .mpReachIpv6 _ _ _ _ => 14
  | .mpUnreachIpv6 _ => 15
  | .as4Path _ _ => 17
  | .as4Aggregator _ _ _ => 18
  | .unknown code _ _ => code

/-- An UPDATE message; a missing attribute pointer is `none`. -/
structure UpdateMsg where
  withdrawn : List (Prefix 32)
  attrs : List (Option PAttr)
  nlri : List (Prefix 32)
  deriving DecidableEq

def UpdateMsg.empty : UpdateMsg := ⟨[], [], []⟩

/-- The first attribute of a kind, as `libbgp_update_find_attr` searches for it. -/
def UpdateMsg.findAttr (update : UpdateMsg) (type : PAttrType) : Option PAttr :=
  (update.attrs.filterMap id).find? fun attr => attr.type == type

/-- The first attribute with a type code, as the attribute view finds it. -/
def attrViewGet (attrs : List (Option PAttr)) (code : UInt8) : Option PAttr :=
  (attrs.filterMap id).find? fun attr => attr.typeCode == code

end Libbgp
