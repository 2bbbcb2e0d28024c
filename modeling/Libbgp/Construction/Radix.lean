/-
The radix tree over masked prefixes.
-/

import Libbgp.Library.BitTrie
import Libbgp.Construction.Prefix

namespace Libbgp

open Library

/-- A radix tree with the number of its values. -/
structure Radix (V : Type) where
  root : BitTrie V
  len : Nat
  deriving DecidableEq

/-- One bit of an address, counted from the first byte in memory. -/
def bgpRadixBit {width : Nat} (addr : BitVec width) (bit : Nat) : Bool :=
  (addrByte addr (bit / 8) >>> (7 - bit % 8)) % 2 == 1

/-- The path of the first bits of an address. -/
def radixPath {width : Nat} (addr : BitVec width) (len : Nat) : List Bool :=
  (List.range len).map (bgpRadixBit addr)

namespace Radix

variable {V : Type}

def init : Radix V := ⟨.nil, 0⟩

/-- `bgp_radix4_insert` and `bgp_radix6_insert`: a replaced value keeps the count. -/
def insert {width : Nat} (tree : Radix V) (addr : BitVec width) (len : Nat) (value : V)
    (alloc : Allocator) : Err × Radix V × Allocator :=
  if width < len then (.invalid, tree, alloc)
  else
    let held := tree.root.get (radixPath addr len)
    match tree.root.insert value (radixPath addr len) alloc with
    | (true, root, alloc) => (.ok, ⟨root, if held.isSome then tree.len else tree.len + 1⟩, alloc)
    | (false, root, alloc) => (.nomem, { tree with root := root }, alloc)

/-- `bgp_radix4_remove` and `bgp_radix6_remove` -/
def remove {width : Nat} (tree : Radix V) (addr : BitVec width) (len : Nat) : Err × Radix V :=
  if width < len then (.invalid, tree)
  else
    match tree.root.remove (radixPath addr len) with
    | some root => (.ok, ⟨root, tree.len - 1⟩)
    | none => (.notFound, tree)

/-- The value with the longest prefix on the path of the whole address. -/
def lookupLpm {width : Nat} (tree : Radix V) (addr : BitVec width) : Option V :=
  tree.root.deepest (radixPath addr width) none

end Radix

end Libbgp
