/-
The operations of a route table.
-/

import Libbgp.Construction.RibIndex

namespace Libbgp

open Library

/-- The state of a route table. The stamp counter stands for the heap. -/
structure RibImpl (family : AddrFamily) where
  routes : Hashmap (RouteEntry family.width)
  sources : SourceIndex family
  lpm : LpmIndex family
  nextUpdateId : UInt64
  nextStamp : Nat

/-- How an operation changed the best route of its prefix. -/
inductive ChangeKind where
  | noBestChange
  | newBest
  | replacementBest
  | unreachable
  deriving DecidableEq, Repr

/-- A reported change with the new best route where there is one. -/
structure RibChange (width : Nat) where
  kind : ChangeKind
  best : Option (Route width)

namespace RibImpl

/-- The state after initialization. -/
def init (family : AddrFamily) : RibImpl family where
  routes := .init
  sources := .init
  lpm := .init family
  nextUpdateId := 0
  nextStamp := 0

variable {family : AddrFamily}

def routeHash (entry : RouteEntry family.width) : UInt64 := family.hash entry.pfx

/-- Update ids are never zero, also after the counter wraps. -/
def nextId (counter : UInt64) : UInt64 :=
  if counter + 1 = 0 then counter + 2 else counter + 1

/-- The stored form of a route: the default preference and a fresh update id are filled in. -/
def cloneOf (counter : UInt64) (route : Route family.width) : Route family.width :=
  { route with
    localPref := if route.localPref = 0 then 100 else route.localPref
    updateId := if route.updateId = 0 then nextId counter else route.updateId }

/-- `rib4_route_clone`: a fresh update id is used up even when a later allocation fails. -/
def routeClone (rib : RibImpl family) (route : Route family.width) (alloc : Allocator) :
    Err × Route family.width × RibImpl family × Allocator :=
  if family.width < route.pfx.len then (.invalid, route, rib, alloc)
  else
    match alloc.request with
    | (false, alloc) => (.nomem, route, rib, alloc)
    | (true, alloc) =>
      let copy := cloneOf rib.nextUpdateId route
      let rib := { rib with
        nextUpdateId := if route.updateId = 0 then nextId rib.nextUpdateId else rib.nextUpdateId }
      match alloc.requests (if route.attrs.isEmpty then 1 else 2) with
      | (false, alloc) => (.nomem, copy, rib, alloc)
      | (true, alloc) => (.ok, copy, rib, alloc)

/-- `bgp_rib4_route_snapshot_clone`: only a route with attributes needs memory. -/
def snapshotClone {width : Nat} (route : Route width) (alloc : Allocator) : Err × Allocator :=
  if route.attrs.isEmpty then (.ok, alloc)
  else
    match alloc.request with
    | (true, alloc) => (.ok, alloc)
    | (false, alloc) => (.nomem, alloc)

def routeEq (source : RouterId) (pfx : Prefix family.width) (entry : RouteEntry family.width) : Bool :=
  routeHash entry == family.hash pfx && entry.pfx == pfx && entry.source == source

/-- `rib4_find_locked` -/
def find (rib : RibImpl family) (source : RouterId) (pfx : Prefix family.width) :
    Option (RouteEntry family.width) :=
  (rib.routes.moduloChain (family.hash pfx)).find? (routeEq source pfx)

/-- `rib4_best_exact_locked`: the best route of a prefix in chain order. -/
def bestExact (rib : RibImpl family) (pfx : Prefix family.width) : Option (RouteEntry family.width) :=
  Preference.select entryBetter ((rib.routes.moduloChain (family.hash pfx)).filter fun entry =>
    routeHash entry == family.hash pfx && entry.pfx == pfx)

/-- `rib4_route_entry_unlink_locked` -/
def entryUnlink (rib : RibImpl family) (entry : RouteEntry family.width) : RibImpl family :=
  { rib with routes := rib.routes.unlink (routeHash entry) entry.same }

/-- An entry leaves both indexes. -/
def indexRemove (rib : RibImpl family) (entry : RouteEntry family.width) (alloc : Allocator) :
    RibImpl family × Allocator :=
  let sources := rib.sources.remove entry
  let (lpm, alloc) := rib.lpm.remove entry alloc
  ({ rib with sources := sources, lpm := lpm }, alloc)

/-- Add a linked entry to both indexes. A failure removes it from everything again. -/
def indexAdd (rib : RibImpl family) (entry : RouteEntry family.width) (alloc : Allocator) :
    Err × RibImpl family × Allocator :=
  match rib.sources.add entry alloc with
  | (.ok, sources, alloc) =>
    match rib.lpm.add entry alloc with
    | (.ok, lpm, alloc) => (.ok, { rib with sources := sources, lpm := lpm }, alloc)
    | (err, lpm, alloc) =>
      (err, { rib with sources := sources.remove entry, lpm := lpm }.entryUnlink entry, alloc)
  | (err, sources, alloc) => (err, { rib with sources := sources }.entryUnlink entry, alloc)

/-- Unlink one entry and take it from both indexes, as both detach functions do once they have found
it in its chain. -/
def detachEntry (rib : RibImpl family) (entry : RouteEntry family.width) (alloc : Allocator) :
    RibImpl family × Allocator :=
  (rib.entryUnlink entry).indexRemove entry alloc

/-- `rib4_detach_locked` -/
def detach (rib : RibImpl family) (source : RouterId) (pfx : Prefix family.width) (alloc : Allocator) :
    Err × Option (RouteEntry family.width) × RibImpl family × Allocator :=
  match rib.find source pfx with
  | none => (.notFound, none, rib, alloc)
  | some entry =>
    let (rib, alloc) := rib.detachEntry entry alloc
    (.ok, some entry, rib, alloc)

/-- `rib4_withdraw_locked`: here the indexes are updated before the entry is unlinked. -/
def withdraw (rib : RibImpl family) (source : RouterId) (pfx : Prefix family.width) (alloc : Allocator) :
    Err × RibImpl family × Allocator :=
  match rib.find source pfx with
  | none => (.notFound, rib, alloc)
  | some entry =>
    let (rib, alloc) := rib.indexRemove entry alloc
    (.ok, { rib with
      routes := rib.routes.removeOne routeHash (family.hash pfx) fun held =>
        held.pfx == pfx && held.same entry }, alloc)

/-- `rib4_entry_find_value_locked`: the entry is searched for in the chain that the modulus selects. -/
def entryFindValue (rib : RibImpl family) (entry : RouteEntry family.width) :
    Option (RouteEntry family.width) :=
  (rib.routes.moduloChain (routeHash entry)).find? fun held =>
    routeHash held == routeHash entry && held.same entry && held.pfx == entry.pfx

/-- Link a new entry and index it. -/
def linkNew (rib : RibImpl family) (copy : Route family.width) (alloc : Allocator) :
    Err × RibImpl family × Allocator :=
  let entry : RouteEntry family.width := ⟨rib.nextStamp, copy⟩
  match rib.routes.insert routeHash entry alloc with
  | (.ok, routes, alloc) =>
    let rib := { rib with routes := routes, nextStamp := rib.nextStamp + 1 }
    match rib.entryFindValue entry with
    | none =>
      (.notFound, { rib with
        routes := rib.routes.removeOne routeHash (routeHash entry) fun held =>
          held.pfx == entry.pfx && held.same entry }, alloc)
    | some found => rib.indexAdd found alloc
  | (err, routes, alloc) => (err, { rib with routes := routes }, alloc)

/-- What a replacing insert hands back. -/
structure Inserted (width : Nat) where
  replaced : Option (Route width)
  updateId : UInt64

/-- `rib4_insert_save_replaced_locked`: the new entry is linked before the old one is detached.
The public insert keeps no record of what it replaces and therefore refuses a second local route. -/
def insertSaveReplaced (rib : RibImpl family) (route : Route family.width) (isPublic : Bool)
    (alloc : Allocator) : Err × Inserted family.width × RibImpl family × Allocator :=
  let old := rib.find route.sourceRouterId route.pfx
  if route.sourceRouterId = 0 ∧ old.isSome ∧ isPublic then (.existing, ⟨none, 0⟩, rib, alloc)
  else
    match rib.routeClone route alloc with
    | (.ok, copy, rib, alloc) =>
      match rib.linkNew copy alloc with
      | (.ok, rib, alloc) =>
        match old with
        | none => (.ok, ⟨none, copy.updateId⟩, rib, alloc)
        | some entry =>
          let (rib, alloc) := rib.detachEntry entry alloc
          (.ok, ⟨some entry.route, copy.updateId⟩, rib, alloc)
      | (err, rib, alloc) => (err, ⟨none, 0⟩, rib, alloc)
    | (err, _, rib, alloc) => (err, ⟨none, 0⟩, rib, alloc)

/-- `libbgp_rib4_insert` -/
def insert (rib : RibImpl family) (route : Route family.width) (alloc : Allocator) :
    Err × RibImpl family × Allocator :=
  match rib.insertSaveReplaced route true alloc with
  | (err, _, rib, alloc) => (err, rib, alloc)

/-- The result of a tracked operation. -/
structure Tracked (family : AddrFamily) where
  err : Err
  change : RibChange family.width
  saved : Option (Route family.width)
  updateId : UInt64
  rib : RibImpl family
  alloc : Allocator

/-- A reported new best route is copied; a failed copy reports an error after the table has changed. -/
def reportBest (kind : ChangeKind) (best : Route family.width) (saved : Option (Route family.width))
    (updateId : UInt64) (rib : RibImpl family) (alloc : Allocator) : Tracked family :=
  match snapshotClone best alloc with
  | (.ok, alloc) => ⟨.ok, ⟨kind, some best⟩, saved, updateId, rib, alloc⟩
  | (err, alloc) => ⟨err, ⟨.noBestChange, none⟩, saved, updateId, rib, alloc⟩

/-- `bgp_rib4_insert_track_best_save_replaced` -/
def insertTrackBest (rib : RibImpl family) (route : Route family.width) (alloc : Allocator) :
    Tracked family :=
  let before := rib.bestExact route.pfx
  match rib.insertSaveReplaced route false alloc with
  | (.ok, inserted, rib, alloc) =>
    match rib.bestExact route.pfx, before with
    | none, _ => ⟨.notFound, ⟨.noBestChange, none⟩, inserted.replaced, inserted.updateId, rib, alloc⟩
    | some after, none =>
      reportBest .newBest after.route inserted.replaced inserted.updateId rib alloc
    | some after, some before =>
      if before.same after then
        ⟨.ok, ⟨.noBestChange, some after.route⟩, inserted.replaced, inserted.updateId, rib, alloc⟩
      else reportBest .replacementBest after.route inserted.replaced inserted.updateId rib alloc
  | (err, inserted, rib, alloc) =>
    ⟨err, ⟨.noBestChange, none⟩, inserted.replaced, inserted.updateId, rib, alloc⟩

/-- `bgp_rib4_withdraw_track_best_save`: a missing route is no error. -/
def withdrawTrackBest (rib : RibImpl family) (source : RouterId) (pfx : Prefix family.width)
    (alloc : Allocator) : Tracked family :=
  let withdrewBest := (rib.bestExact pfx).any fun best => best.source == source
  match rib.detach source pfx alloc with
  | (.ok, entry, rib, alloc) =>
    let saved := entry.map RouteEntry.route
    let after := rib.bestExact pfx
    if !withdrewBest then ⟨.ok, ⟨.noBestChange, after.map RouteEntry.route⟩, saved, 0, rib, alloc⟩
    else
      match after with
      | none => ⟨.ok, ⟨.unreachable, none⟩, saved, 0, rib, alloc⟩
      | some after => reportBest .replacementBest after.route saved 0 rib alloc
  | (.notFound, _, rib, alloc) => ⟨.ok, ⟨.noBestChange, none⟩, none, 0, rib, alloc⟩
  | (err, _, rib, alloc) => ⟨err, ⟨.noBestChange, none⟩, none, 0, rib, alloc⟩

/-- `bgp_rib4_withdraw_exact_if_update_id` -/
def withdrawIfUpdateId (rib : RibImpl family) (source : RouterId) (pfx : Prefix family.width)
    (updateId : UInt64) (alloc : Allocator) : Err × RibImpl family × Allocator :=
  if updateId = 0 then (.invalid, rib, alloc)
  else
    match rib.find source pfx with
    | none => (.notFound, rib, alloc)
    | some entry =>
      if entry.route.updateId = updateId then rib.withdraw source pfx alloc else (.ok, rib, alloc)

/-- `rib4_attach_detached_locked`: the table is not grown for a restored entry. -/
def attachDetached (rib : RibImpl family) (route : Route family.width) (alloc : Allocator) :
    Err × RibImpl family × Allocator :=
  if (rib.find route.sourceRouterId route.pfx).isSome then (.existing, rib, alloc)
  else
    let entry : RouteEntry family.width := ⟨rib.nextStamp, route⟩
    let rib := { rib with routes := rib.routes.relink routeHash entry, nextStamp := rib.nextStamp + 1 }
    match rib.indexAdd entry alloc with
    | (.ok, rib, alloc) => (.ok, rib, alloc)
    | (_, rib, alloc) => (.nomem, rib, alloc)

/-- `bgp_rib4_restore_saved_if_absent`: the saved route is used up only when it is linked again. -/
def restoreSavedIfAbsent (rib : RibImpl family) (source : RouterId) (saved : Option (Route family.width))
    (alloc : Allocator) : Err × Option (Route family.width) × RibImpl family × Allocator :=
  match saved with
  | none => (.ok, none, rib, alloc)
  | some route =>
    if route.sourceRouterId ≠ source then (.invalid, some route, rib, alloc)
    else if (rib.find source route.pfx).isSome then (.ok, some route, rib, alloc)
    else
      match rib.attachDetached route alloc with
      | (.ok, rib, alloc) => (.ok, none, rib, alloc)
      | (err, rib, alloc) => (err, some route, rib, alloc)

/-- Drop the entries of one source one after the other. -/
def dropEntries (rib : RibImpl family) (alloc : Allocator) :
    List (RouteEntry family.width) → RibImpl family × Allocator
  | [] => (rib, alloc)
  | entry :: rest =>
    match (rib.routes.moduloChain (routeHash entry)).find? entry.same with
    | none => dropEntries rib alloc rest
    | some _ =>
      let unlinked := rib.entryUnlink entry
      let (lpm, alloc) := unlinked.lpm.remove entry alloc
      dropEntries { unlinked with lpm := lpm } alloc rest

/-- `rib4_remove_source_locked` -/
def removeSource (rib : RibImpl family) (source : RouterId) (alloc : Allocator) :
    RibImpl family × Allocator :=
  match rib.sources.find source with
  | none => (rib, alloc)
  | some held =>
    let (rib, alloc) := rib.dropEntries alloc held.entries
    ({ rib with sources := rib.sources.drop source }, alloc)

/-- `libbgp_rib4_discard` -/
def discard (rib : RibImpl family) (source : RouterId) (alloc : Allocator) :
    Err × RibImpl family × Allocator :=
  let (rib, alloc) := rib.removeSource source alloc
  (.ok, rib, alloc)

end RibImpl

end Libbgp
