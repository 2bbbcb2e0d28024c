/-
Lookups in a route table, the walk over its best routes, and the discard that reports what it removed.
-/

import Libbgp.Construction.Rib

namespace Libbgp

open Library

namespace RibImpl

variable {family : AddrFamily}

/-- `libbgp_rib4_lookup`: the match is tested once more against the prefix of the route itself. -/
def lookup (rib : RibImpl family) (dest : BitVec family.width) : Except Err (RouteEntry family.width) :=
  match rib.lpm.tree.lookupLpm dest with
  | none => .error .notFound
  | some best => if addrMatches family best.pfx dest then .ok best else .error .notFound

/-- A more specific covering route wins, or the better one at equal length. -/
def longerOrBetter {width : Nat} (a b : RouteEntry width) : Bool :=
  decide (b.pfx.len < a.pfx.len) || (a.pfx.len == b.pfx.len && entryBetter a b)

/-- `libbgp_rib4_lookup_scoped`: a scan of the routes of one source. -/
def lookupScoped (rib : RibImpl family) (source : RouterId) (dest : BitVec family.width) :
    Except Err (RouteEntry family.width) :=
  match rib.sources.find source with
  | none => .error .notFound
  | some held =>
    match Preference.select longerOrBetter
        (held.entries.filter fun entry => addrMatches family entry.pfx dest) with
    | none => .error .notFound
    | some best => .ok best

/-- Growing arrays of the walk and of the discard start with 64 places. -/
def snapCap (cap : Nat) : Nat := if cap = 0 then 64 else cap * 2

/-- Make room for one more element in an array. -/
def reserveOne (count cap : Nat) (alloc : Allocator) : Option Nat × Allocator :=
  if count < cap then (some cap, alloc)
  else
    match alloc.request with
    | (true, alloc) => (some (snapCap cap), alloc)
    | (false, alloc) => (none, alloc)

/-- Copy the cached best routes of the groups until memory runs out. -/
def snapshotBests (count cap : Nat) (alloc : Allocator) :
    List (LpmEntry family.width) → Err × List (RouteEntry family.width) × Allocator
  | [] => (.ok, [], alloc)
  | group :: rest =>
    match group.best with
    | none => snapshotBests count cap alloc rest
    | some best =>
      match reserveOne count cap alloc with
      | (none, alloc) => (.nomem, [], alloc)
      | (some cap, alloc) =>
        match snapshotClone best.route alloc with
        | (.ok, alloc) =>
          match snapshotBests (count + 1) cap alloc rest with
          | (err, bests, alloc) => (err, best :: bests, alloc)
        | (err, alloc) => (err, [], alloc)

/-- `bgp_rib4_foreach_best_route`: the routes handed to the callback, in the order of the calls. The
routes copied before a failure are still visited. -/
def foreachBestRoute (rib : RibImpl family) (alloc : Allocator) :
    Err × List (RouteEntry family.width) × Allocator :=
  snapshotBests 0 0 alloc rib.lpm.groups.entries

/-- What a discard reports: prefixes without a route and new best routes. -/
structure DiscardResult (width : Nat) where
  withdrawn : List (Prefix width)
  replacements : List (Route width)

/-- The prefixes whose best route belongs to the source. -/
def activePrefixes (rib : RibImpl family) (source : RouterId) (count cap : Nat) (alloc : Allocator) :
    List (RouteEntry family.width) → Err × List (Prefix family.width) × Allocator
  | [] => (.ok, [], alloc)
  | entry :: rest =>
    if entry.source == source && (rib.bestExact entry.pfx).any entry.same then
      match reserveOne count cap alloc with
      | (none, alloc) => (.nomem, [], alloc)
      | (some cap, alloc) =>
        match activePrefixes rib source (count + 1) cap alloc rest with
        | (err, prefixes, alloc) => (err, entry.pfx :: prefixes, alloc)
    else activePrefixes rib source count cap alloc rest

/-- Sort the affected prefixes into lost ones and replaced ones. -/
def collectChanges (rib : RibImpl family) (withdrawnCount withdrawnCap replacedCount replacedCap : Nat)
    (alloc : Allocator) : List (Prefix family.width) → Err × DiscardResult family.width × Allocator
  | [] => (.ok, ⟨[], []⟩, alloc)
  | pfx :: rest =>
    match rib.bestExact pfx with
    | none =>
      match reserveOne withdrawnCount withdrawnCap alloc with
      | (none, alloc) => (.nomem, ⟨[], []⟩, alloc)
      | (some cap, alloc) =>
        match collectChanges rib (withdrawnCount + 1) cap replacedCount replacedCap alloc rest with
        | (err, result, alloc) => (err, { result with withdrawn := pfx :: result.withdrawn }, alloc)
    | some best =>
      match reserveOne replacedCount replacedCap alloc with
      | (none, alloc) => (.nomem, ⟨[], []⟩, alloc)
      | (some cap, alloc) =>
        match snapshotClone best.route alloc with
        | (.ok, alloc) =>
          match collectChanges rib withdrawnCount withdrawnCap (replacedCount + 1) cap alloc rest with
          | (err, result, alloc) =>
            (err, { result with replacements := best.route :: result.replacements }, alloc)
        | (err, alloc) => (err, ⟨[], []⟩, alloc)

/-- The routes listed for a source. -/
def sourceEntries (rib : RibImpl family) (source : RouterId) : List (RouteEntry family.width) :=
  ((rib.sources.find source).map SourceEntry.entries).getD []

/-- `bgp_rib4_discard_collect`: a failure before the removal changes nothing; one after it leaves the
routes removed and reports nothing. -/
def discardCollect (rib : RibImpl family) (source : RouterId) (alloc : Allocator) :
    Err × DiscardResult family.width × RibImpl family × Allocator :=
  match rib.activePrefixes source 0 0 alloc (rib.sourceEntries source) with
  | (.ok, active, alloc) =>
    let (rib, alloc) := rib.removeSource source alloc
    match rib.collectChanges 0 0 0 0 alloc active with
    | (.ok, result, alloc) => (.ok, result, rib, alloc)
    | (err, _, alloc) => (err, ⟨[], []⟩, rib, alloc)
  | (err, _, alloc) => (err, ⟨[], []⟩, rib, alloc)

end RibImpl

/-- The attributes of a local route. -/
def localAttrs : (af : Af) → BitVec af.family.width → List (Option PAttr)
  | .ipv4, nextHop =>
    [some ⟨0x40, .origin 0⟩, some ⟨0x40, .asPath [] true⟩, some ⟨0x40, .nextHop nextHop⟩]
  | .ipv6, _ => [some ⟨0x40, .origin 0⟩, some ⟨0x40, .asPath [] true⟩]

/-- The route that `insert_local` builds. -/
def localRoute (af : Af) (pfx : Prefix af.family.width) (nextHop : BitVec af.family.width) (weight : Int) :
    Route af.family.width where
  pfx := pfx
  sourceRouterId := 0
  nextHop := nextHop
  nextHopLinklocal := 0
  weight := weight
  isIbgp := false
  localPref := 100
  med := 0
  origin := 0
  asPathLen := 0
  originAs := 0
  updateId := 0
  attrs := localAttrs af nextHop

/-- `libbgp_rib4_insert_local` and `libbgp_rib6_insert_local`: every attribute object is requested
before the results are tested. -/
def ribInsertLocal (af : Af) (rib : RibImpl af.family) (pfx : Prefix af.family.width)
    (nextHop : BitVec af.family.width) (weight : Int) (alloc : Allocator) :
    Err × RibImpl af.family × Allocator :=
  match alloc.requestAll (localAttrs af nextHop).length with
  | (false, alloc) => (.nomem, rib, alloc)
  | (true, alloc) => rib.insert (localRoute af pfx nextHop weight) alloc

end Libbgp
