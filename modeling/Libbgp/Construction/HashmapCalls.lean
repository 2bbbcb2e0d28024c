/-
The hash map's own functions, with their keys, size checks and results.
-/

import Libbgp.Construction.Hashmap
import Libbgp.Construction.Wire

namespace Libbgp

open Library

/-- A chain cell. It keeps the hash that its key had at the insert. -/
structure MapEntry (K V : Type) where
  key : K
  value : V
  hash : UInt64
  deriving DecidableEq

/-- The functions that a map is given for its keys. -/
structure KeyOps (K : Type) where
  hash : K → UInt64
  eq : K → K → Bool

namespace Hashmap

variable {K V : Type}

/-- `hashmap_is_power_of_two` -/
def isPowerOfTwo (value : Nat) : Bool := value != 0 && (value &&& (value - 1)) == 0

/-- The largest number of bucket pointers that fits into a `size_t` of bytes. -/
def maxBuckets : Nat := sizeMax / 8

/-- `hashmap_alloc_buckets` -/
def allocBuckets (count : Nat) (alloc : Allocator) : Err × Allocator :=
  if maxBuckets < count then (.nomem, alloc)
  else
    match alloc.request with
    | (true, alloc) => (.ok, alloc)
    | (false, alloc) => (.nomem, alloc)

/-- `hashmap_resize` -/
def resizeTo (map : Hashmap (MapEntry K V)) (count : Nat) (alloc : Allocator) :
    Err × Hashmap (MapEntry K V) × Allocator :=
  if isPowerOfTwo count then
    match allocBuckets count alloc with
    | (.ok, alloc) => (.ok, map.resize MapEntry.hash count, alloc)
    | (_, alloc) => (.nomem, map, alloc)
  else (.invalid, map, alloc)

/-- The doubling loop of `bgp_hashmap_reserve`. The size check ends it after at most 64 rounds. -/
def reserveTarget (count : Nat) : Nat → Nat → Option Nat
  | 0, _ => none
  | fuel + 1, target =>
    if resizeThreshold target < count then
      if sizeMax / 2 < target then none else reserveTarget count fuel (target * 2)
    else some target

/-- `bgp_hashmap_reserve` -/
def reserve (map : Hashmap (MapEntry K V)) (count : Nat) (alloc : Allocator) :
    Err × Hashmap (MapEntry K V) × Allocator :=
  if isPowerOfTwo map.bucketCount then
    if count ≤ resizeThreshold map.bucketCount then (.ok, map, alloc)
    else
      match reserveTarget count 64 map.bucketCount with
      | none => (.nomem, map, alloc)
      | some target => map.resizeTo target alloc
  else (.invalid, map, alloc)

end Hashmap

namespace KeyOps

variable {K V : Type}

/-- `bgp_hashmap_insert`. A table that has grown stays grown when the cell is then refused. -/
def insert (ops : KeyOps K) (map : Hashmap (MapEntry K V)) (key : K) (value : V) (alloc : Allocator) :
    Err × Hashmap (MapEntry K V) × Allocator :=
  let room :=
    if Hashmap.resizeThreshold map.bucketCount ≤ map.len then
      if sizeMax / 2 < map.bucketCount then (.nomem, map, alloc)
      else map.resizeTo (map.bucketCount * 2) alloc
    else (.ok, map, alloc)
  match room with
  | (.ok, map, alloc) => map.addEntry MapEntry.hash ⟨key, value, ops.hash key⟩ alloc
  | failed => failed

/-- The key test of a search; `none` accepts every value. -/
def selects [DecidableEq V] (ops : KeyOps K) (key : K) (value : Option V) (entry : MapEntry K V) : Bool :=
  ops.eq entry.key key && value.all (· == entry.value)

/-- `bgp_hashmap_remove_one` -/
def removeOne [DecidableEq V] (ops : KeyOps K) (map : Hashmap (MapEntry K V)) (key : K) (value : Option V) :
    Err × Hashmap (MapEntry K V) :=
  match map.findFirst MapEntry.hash (ops.hash key) (ops.selects key value) with
  | none => (.notFound, map)
  | some _ => (.ok, map.removeOne MapEntry.hash (ops.hash key) (ops.selects key value))

/-- `bgp_hashmap_find_first` -/
def findFirst (ops : KeyOps K) (map : Hashmap (MapEntry K V)) (key : K) : Option V :=
  (map.findFirst MapEntry.hash (ops.hash key) fun entry => ops.eq entry.key key).map MapEntry.value

/-- `bgp_hashmap_count_key` -/
def countKey (ops : KeyOps K) (map : Hashmap (MapEntry K V)) (key : K) : Nat :=
  (map.chain (ops.hash key)).countP (Hashmap.hit MapEntry.hash (ops.hash key) fun entry => ops.eq entry.key key)

/-- `rib4_entry_find_value_locked` and its IPv6 twin, which search the chain of the modulus. -/
def entryFindValue [DecidableEq V] (ops : KeyOps K) (map : Hashmap (MapEntry K V)) (key : K) (value : V) :
    Option (MapEntry K V) :=
  (map.moduloChain (ops.hash key)).find? fun entry =>
    entry.hash == ops.hash key && entry.value == value && ops.eq entry.key key

/-- `rib4_route_entry_unlink_locked` and its IPv6 twin; the result says whether the cell was linked. -/
def routeEntryUnlink [DecidableEq K] [DecidableEq V] (map : Hashmap (MapEntry K V)) (entry : MapEntry K V) :
    Bool × Hashmap (MapEntry K V) :=
  if map.bucketCount = 0 then (false, map)
  else (((map.moduloChain entry.hash).find? (· == entry)).isSome, map.unlink entry.hash (· == entry))

end KeyOps

/-- The calls that change a map. The last one is the route tables' own removal of one cell. -/
inductive MapCall (K V : Type) where
  | insert (key : K) (value : V)
  | reserve (count : Nat)
  | removeOne (key : K) (value : Option V)
  | unlink (key : K) (value : V)

/-- One call and the map that it leaves. -/
def MapCall.perform {K V : Type} [DecidableEq K] [DecidableEq V] (ops : KeyOps K)
    (map : Hashmap (MapEntry K V)) (alloc : Allocator) : MapCall K V → Err × Hashmap (MapEntry K V)
  | .insert key value =>
    let (err, after, _) := ops.insert map key value alloc
    (err, after)
  | .reserve count =>
    let (err, after, _) := map.reserve count alloc
    (err, after)
  | .removeOne key value => ops.removeOne map key value
  | .unlink key value =>
    match ops.entryFindValue map key value with
    | none => (.notFound, map)
    | some entry =>
      match KeyOps.routeEntryUnlink map entry with
      | (true, after) => (.ok, after)
      | (false, after) => (.notFound, after)

/-- The map after a sequence of calls, each with its own answers to allocations. -/
def mapRun {K V : Type} [DecidableEq K] [DecidableEq V] (ops : KeyOps K)
    (calls : List (MapCall K V × Allocator)) : Hashmap (MapEntry K V) :=
  calls.foldl (fun map (call, alloc) => (call.perform ops map alloc).2) Hashmap.init

end Libbgp
