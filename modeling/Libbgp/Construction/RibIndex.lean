/-
The two indexes of a route table: the routes of each source, and the routes of each masked prefix
with the radix tree over their best routes.
-/

import Libbgp.Library.Preference
import Libbgp.Construction.Hashmap
import Libbgp.Construction.Radix
import Libbgp.Construction.Route

namespace Libbgp

open Library

/-- A linked route. The stamp stands for the address of the entry: every link takes a fresh one, so
two linked entries are the same object exactly when their stamps agree. -/
structure RouteEntry (width : Nat) where
  stamp : Nat
  route : Route width
  deriving DecidableEq

namespace RouteEntry

variable {width : Nat}

def source (entry : RouteEntry width) : RouterId := entry.route.sourceRouterId

def pfx (entry : RouteEntry width) : Prefix width := entry.route.pfx

/-- Pointer equality. -/
def same (a b : RouteEntry width) : Bool := a.stamp == b.stamp

end RouteEntry

/-- The routes of one source with the capacity of their array. -/
structure SourceEntry (width : Nat) where
  sourceRouterId : RouterId
  entries : List (RouteEntry width)
  cap : Nat

/-- The routes of one masked prefix with the capacity of their array and the cached best route. -/
structure LpmEntry (width : Nat) where
  pfx : Prefix width
  entries : List (RouteEntry width)
  cap : Nat
  best : Option (RouteEntry width)

/-- Arrays double their capacity. -/
def nextCap (cap : Nat) : Nat := if cap = 0 then 1 else cap * 2

/-- The map from sources to their routes. -/
abbrev SourceIndex (family : AddrFamily) := Hashmap (SourceEntry family.width)

namespace SourceIndex

variable {family : AddrFamily}

def keyHash (source : RouterId) : UInt64 :=
  hashU64Mix (UInt64.ofNat (hostWord (addrBytes source)))

def hash (held : SourceEntry family.width) : UInt64 := keyHash held.sourceRouterId

def keyEq (source : RouterId) (held : SourceEntry family.width) : Bool := held.sourceRouterId == source

def find (index : SourceIndex family) (source : RouterId) : Option (SourceEntry family.width) :=
  index.findFirst hash (keyHash source) (keyEq source)

/-- Write to the record of one source in place. -/
def update (index : SourceIndex family) (source : RouterId)
    (change : SourceEntry family.width → SourceEntry family.width) : SourceIndex family :=
  index.updateEntry hash (keyHash source) (keyEq source) change

/-- `rib4_source_index_add`: the record of a source is created for its first route. -/
def add (index : SourceIndex family) (entry : RouteEntry family.width) (alloc : Allocator) :
    Err × SourceIndex family × Allocator :=
  match find index entry.source with
  | none =>
    match alloc.requests 3 with
    | (false, alloc) => (.nomem, index, alloc)
    | (true, alloc) => index.insert hash ⟨entry.source, [entry], 1⟩ alloc
  | some source =>
    if source.cap ≤ source.entries.length then
      match alloc.request with
      | (false, alloc) => (.nomem, index, alloc)
      | (true, alloc) =>
        (.ok, update index entry.source fun held =>
          { held with entries := held.entries ++ [entry], cap := nextCap held.cap }, alloc)
    else
      (.ok, update index entry.source fun held => { held with entries := held.entries ++ [entry] }, alloc)

/-- `rib4_source_index_remove`: the last entry moves into the place of the removed one. -/
def remove (index : SourceIndex family) (entry : RouteEntry family.width) : SourceIndex family :=
  match find index entry.source with
  | none => index
  | some source =>
    match source.entries.findIdx? entry.same with
    | none => index
    | some position =>
      if (swapRemove source.entries position).isEmpty then
        index.removeOne hash (keyHash entry.source) (keyEq entry.source)
      else
        update index entry.source fun held => { held with entries := swapRemove held.entries position }

/-- The whole record of a source leaves the map. -/
def drop (index : SourceIndex family) (source : RouterId) : SourceIndex family :=
  index.removeOne hash (keyHash source) (keyEq source)

end SourceIndex

/-- The groups of routes by masked prefix and the tree over their cached best routes. -/
structure LpmIndex (family : AddrFamily) where
  groups : Hashmap (LpmEntry family.width)
  tree : Radix (RouteEntry family.width)

/-- The preference between two linked entries. -/
def entryBetter {width : Nat} (a b : RouteEntry width) : Bool := ribBetter a.route b.route

namespace LpmIndex

variable {family : AddrFamily}

def init (family : AddrFamily) : LpmIndex family := ⟨.init, .init⟩

def hash (group : LpmEntry family.width) : UInt64 := family.hash group.pfx

def keyEq (network : Prefix family.width) (group : LpmEntry family.width) : Bool := group.pfx == network

/-- The group of exactly this masked prefix. -/
def find (index : LpmIndex family) (network : Prefix family.width) : Option (LpmEntry family.width) :=
  index.groups.findFirst hash (family.hash network) (keyEq network)

/-- `rib4_lpm_group_find_locked` -/
def groupFind (index : LpmIndex family) (pfx : Prefix family.width) : Option (LpmEntry family.width) :=
  if family.width < pfx.len then none else index.find (lpmNormalizePrefix family pfx)

/-- Write to the record of one group in place. -/
def update (index : LpmIndex family) (network : Prefix family.width)
    (change : LpmEntry family.width → LpmEntry family.width) : LpmIndex family :=
  { index with groups := index.groups.updateEntry hash (family.hash network) (keyEq network) change }

/-- `rib4_lpm_group_remove_locked` -/
def groupRemove (index : LpmIndex family) (network : Prefix family.width) : LpmIndex family :=
  { index with groups := index.groups.removeOne hash (family.hash network) (keyEq network) }

/-- `rib4_lpm_group_best_locked`: the best entry of a group, in array order. -/
def groupBest {width : Nat} (entries : List (RouteEntry width)) : Option (RouteEntry width) :=
  Preference.select entryBetter entries

/-- Write a route to the tree at a group's prefix. -/
def treeInsert (index : LpmIndex family) (network : Prefix family.width)
    (entry : RouteEntry family.width) (alloc : Allocator) : Err × LpmIndex family × Allocator :=
  match index.tree.insert network.addr network.len entry alloc with
  | (err, tree, alloc) => (err, { index with tree := tree }, alloc)

/-- The array of a group lost one entry. An emptied group leaves the tree and the map; a new best
route is chosen only when the cached one left. -/
def shrink (index : LpmIndex family) (group : LpmEntry family.width) (entry : RouteEntry family.width)
    (remaining : List (RouteEntry family.width)) (alloc : Allocator) : LpmIndex family × Allocator :=
  if remaining.isEmpty then
    (groupRemove { index with tree := (index.tree.remove group.pfx.addr group.pfx.len).2 } group.pfx, alloc)
  else if group.best.all entry.same then
    let best := groupBest remaining
    let index := index.update group.pfx fun held => { held with entries := remaining, best := best }
    match best with
    | none => (index, alloc)
    | some route => (index.treeInsert group.pfx route alloc).2
  else
    (index.update group.pfx fun held => { held with entries := remaining }, alloc)

/-- `rib4_lpm_index_remove_locked` -/
def remove (index : LpmIndex family) (entry : RouteEntry family.width) (alloc : Allocator) :
    LpmIndex family × Allocator :=
  match index.groupFind entry.pfx with
  | none => (index, alloc)
  | some group =>
    match group.entries.findIdx? entry.same with
    | none => (index, alloc)
    | some position => index.shrink group entry (swapRemove group.entries position) alloc

/-- Append an entry to a group that has room for it. The tree is written before the cached best, and
a failed write takes the entry back. -/
def append (index : LpmIndex family) (group : LpmEntry family.width) (created : Bool)
    (entry : RouteEntry family.width) (alloc : Allocator) : Err × LpmIndex family × Allocator :=
  let index := index.update group.pfx fun held => { held with entries := held.entries ++ [entry] }
  if group.best.all (entryBetter entry) then
    match index.treeInsert group.pfx entry alloc with
    | (.ok, index, alloc) =>
      (.ok, index.update group.pfx fun held => { held with best := some entry }, alloc)
    | (err, index, alloc) =>
      let index := index.update group.pfx fun held => { held with entries := held.entries.dropLast }
      (err, if created then index.groupRemove group.pfx else index, alloc)
  else (.ok, index, alloc)

/-- The masked prefix whose group an entry belongs to. -/
def network (entry : RouteEntry family.width) : Prefix family.width :=
  lpmNormalizePrefix family entry.pfx

/-- `rib4_lpm_index_add_locked`: the group of a masked prefix is created for its first route. -/
def add (index : LpmIndex family) (entry : RouteEntry family.width) (alloc : Allocator) :
    Err × LpmIndex family × Allocator :=
  match index.find (network entry) with
  | none =>
    match alloc.requests 3 with
    | (false, alloc) => (.nomem, index, alloc)
    | (true, alloc) =>
      match index.groups.insert hash ⟨network entry, [], 1, none⟩ alloc with
      | (.ok, groups, alloc) =>
        { index with groups := groups }.append ⟨network entry, [], 1, none⟩ true entry alloc
      | (err, groups, alloc) => (err, { index with groups := groups }, alloc)
  | some group =>
    if group.cap ≤ group.entries.length then
      match alloc.request with
      | (false, alloc) => (.nomem, index, alloc)
      | (true, alloc) =>
        (index.update (network entry) fun held =>
          { held with cap := nextCap held.cap }).append group false entry alloc
    else index.append group false entry alloc

end LpmIndex

end Libbgp
