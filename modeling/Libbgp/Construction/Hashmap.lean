/-
The chained hash map under every index of the route tables.
-/

import Libbgp.Library.Allocator
import Libbgp.Library.Buckets
import Libbgp.Construction.Prefix

namespace Libbgp

open Library

/-- A chained hash map; every chain has its newest entry first. -/
structure Hashmap (E : Type) where
  buckets : List (List E)
  len : Nat

namespace Hashmap

variable {E : Type}

def initialBuckets : Nat := 16

/-- The empty map after initialization. -/
def init : Hashmap E := ⟨List.replicate initialBuckets [], 0⟩

def bucketCount (map : Hashmap E) : Nat := map.buckets.length

/-- The map's own functions mask the hash with the bucket count. -/
def bucketIndex (hash : UInt64) (count : Nat) : Nat := hash.toNat &&& (count - 1)

/-- The route tables reduce the hash modulo the bucket count. -/
def moduloIndex (hash : UInt64) (count : Nat) : Nat := hash.toNat % count

def resizeThreshold (count : Nat) : Nat := count - count / 4

/-- All entries in the order of a walk over the buckets. -/
def entries (map : Hashmap E) : List E := map.buckets.flatten

/-- The entries are walked in bucket order and pushed to the front of their new chain. -/
def resize (hash : E → UInt64) (map : Hashmap E) (count : Nat) : Hashmap E :=
  { map with buckets := rehash (fun entry => bucketIndex (hash entry) count) count map.entries }

/-- Link a new entry at the front of its chain. -/
def link (hash : E → UInt64) (map : Hashmap E) (entry : E) : Hashmap E :=
  { buckets := pushFront (fun entry => bucketIndex (hash entry) map.bucketCount) map.buckets entry
    len := map.len + 1 }

/-- Allocate the chain cell of a new entry and link it. -/
def addEntry (hash : E → UInt64) (map : Hashmap E) (entry : E) (alloc : Allocator) :
    Err × Hashmap E × Allocator :=
  match alloc.request with
  | (true, alloc) => (.ok, map.link hash entry, alloc)
  | (false, alloc) => (.nomem, map, alloc)

/-- `bgp_hashmap_insert`: the table grows first when it is three quarters full. -/
def insert (hash : E → UInt64) (map : Hashmap E) (entry : E) (alloc : Allocator) :
    Err × Hashmap E × Allocator :=
  if resizeThreshold map.bucketCount ≤ map.len then
    match alloc.request with
    | (true, alloc) => (map.resize hash (map.bucketCount * 2)).addEntry hash entry alloc
    | (false, alloc) => (.nomem, map, alloc)
  else map.addEntry hash entry alloc

/-- The chain that a mask selects. -/
def chain (map : Hashmap E) (hash : UInt64) : List E :=
  map.buckets.getD (bucketIndex hash map.bucketCount) []

/-- The chain that a modulus selects. -/
def moduloChain (map : Hashmap E) (hash : UInt64) : List E :=
  map.buckets.getD (moduloIndex hash map.bucketCount) []

/-- An entry matches when its stored hash and its key agree. -/
def hit (hash : E → UInt64) (wanted : UInt64) (eq : E → Bool) (entry : E) : Bool :=
  hash entry == wanted && eq entry

/-- `bgp_hashmap_find_first` -/
def findFirst (hash : E → UInt64) (map : Hashmap E) (wanted : UInt64) (eq : E → Bool) : Option E :=
  (map.chain wanted).find? (hit hash wanted eq)

/-- `bgp_hashmap_remove_one`: only the first match leaves its chain. -/
def removeOne (hash : E → UInt64) (map : Hashmap E) (wanted : UInt64) (eq : E → Bool) : Hashmap E :=
  match map.findFirst hash wanted eq with
  | none => map
  | some _ =>
    { buckets := map.buckets.modify (bucketIndex wanted map.bucketCount)
        (·.eraseP (hit hash wanted eq))
      len := map.len - 1 }

/-- A write through the pointer that `bgp_hashmap_find_first` returns. -/
def updateEntry (hash : E → UInt64) (map : Hashmap E) (wanted : UInt64) (eq : E → Bool)
    (change : E → E) : Hashmap E :=
  { buckets := map.buckets.modify (bucketIndex wanted map.bucketCount)
      (updateFirst (hit hash wanted eq) change)
    len := map.len }

/-- The route tables unlink an entry themselves, from the chain that the modulus selects. -/
def unlink (map : Hashmap E) (wanted : UInt64) (eq : E → Bool) : Hashmap E :=
  match (map.moduloChain wanted).find? eq with
  | none => map
  | some _ =>
    { buckets := map.buckets.modify (moduloIndex wanted map.bucketCount) (·.eraseP eq)
      len := map.len - 1 }

/-- The route tables also link a detached entry themselves, without growing the table. -/
def relink (hash : E → UInt64) (map : Hashmap E) (entry : E) : Hashmap E :=
  { buckets := pushFront (fun entry => moduloIndex (hash entry) map.bucketCount) map.buckets entry
    len := map.len + 1 }

end Hashmap

end Libbgp
