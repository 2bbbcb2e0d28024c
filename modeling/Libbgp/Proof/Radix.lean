import Libbgp.Construction.Radix
import Libbgp.Construction.Route

namespace Libbgp

open Library

variable {width len : Nat} (addr : BitVec width)

/-- The bit that the tree reads is the bit of the address in network order. -/
theorem bgpRadixBit_eq_getMsbD {bit : Nat} (wholeBytes : 8 ∣ width) (inside : bit < width) :
    bgpRadixBit addr bit = addr.getMsbD bit := by
  obtain ⟨bytes, rfl⟩ := wholeBytes
  have low : 7 - bit % 8 < 8 := by omega
  have place : 8 * bytes - 8 * (bit / 8 + 1) + (7 - bit % 8) = 8 * bytes - 1 - bit := by omega
  have read : bgpRadixBit addr bit = (addrByte addr (bit / 8)).testBit (7 - bit % 8) := by
    rw [bgpRadixBit, Nat.testBit_eq_decide_div_mod_eq, Nat.shiftRight_eq_div_pow]
    rfl
  have byte : addrByte addr (bit / 8) =
      (addr.toNat >>> (8 * bytes - 8 * (bit / 8 + 1))) % 2 ^ 8 := rfl
  rw [read, byte, Nat.testBit_mod_two_pow, Nat.testBit_shiftRight, place, BitVec.getMsbD, BitVec.getLsbD]
  simp [low, inside]

@[simp] theorem radixPath_length (len : Nat) : (radixPath addr len).length = len := by
  simp [radixPath]

theorem radixPath_take {depth : Nat} (shorter : depth ≤ len) :
    (radixPath addr len).take depth = radixPath addr depth := by
  rw [radixPath, ← List.map_take, List.take_range, Nat.min_eq_left shorter]
  rfl

/-- Equal paths have equal length and equal bits. -/
theorem radixPath_eq_iff {other : Nat} {addr dest : BitVec width} :
    radixPath addr len = radixPath dest other ↔
      len = other ∧ ∀ bit < len, bgpRadixBit addr bit = bgpRadixBit dest bit := by
  constructor
  · intro same
    have length : len = other := by simpa using congrArg List.length same
    subst length
    refine ⟨rfl, fun bit inside => ?_⟩
    exact List.map_inj_left.mp same bit (by simpa using inside)
  · rintro ⟨rfl, bits⟩
    exact List.map_inj_left.mpr fun bit member => bits bit (by simpa using member)

section Network

variable {family : AddrFamily} {pfx : Prefix family.width}

/-- A prefix of possible length whose host bits are clear. -/
def Masked (family : AddrFamily) (network : Prefix family.width) : Prop :=
  network.len ≤ family.width ∧ lpmNormalizePrefix family network = network

theorem lpmNormalizePrefix_of_le (fits : pfx.len ≤ family.width) :
    lpmNormalizePrefix family pfx = { pfx with addr := pfx.addr &&& family.cidrToMask pfx.len } := by
  simp [lpmNormalizePrefix, Nat.not_lt.mpr fits]

theorem normalized_getMsbD (fits : pfx.len ≤ family.width) {bit : Nat} (inside : bit < family.width) :
    (lpmNormalizePrefix family pfx).addr.getMsbD bit = (pfx.addr.getMsbD bit && decide (bit < pfx.len)) := by
  rw [lpmNormalizePrefix_of_le fits]
  simp only [BitVec.getMsbD_and]
  rw [family.mask_getMsbD pfx.len fits bit inside]

theorem normalized_masked {pfx : Prefix family.width} (fits : pfx.len ≤ family.width) :
    Masked family (lpmNormalizePrefix family pfx) := by
  have shape := lpmNormalizePrefix_of_le fits
  have length : (lpmNormalizePrefix family pfx).len = pfx.len := by rw [shape]
  refine ⟨length.symm ▸ fits, ?_⟩
  rw [lpmNormalizePrefix_of_le (length.symm ▸ fits), shape]
  simp [BitVec.and_assoc]

/-- Masking keeps the path of the prefix. -/
theorem radixPath_normalized {pfx : Prefix family.width} (fits : pfx.len ≤ family.width) :
    radixPath (lpmNormalizePrefix family pfx).addr (lpmNormalizePrefix family pfx).len =
      radixPath pfx.addr pfx.len := by
  have length : (lpmNormalizePrefix family pfx).len = pfx.len := by rw [lpmNormalizePrefix_of_le fits]
  rw [radixPath_eq_iff, length]
  refine ⟨rfl, fun bit inside => ?_⟩
  have within : bit < family.width := Nat.lt_of_lt_of_le inside fits
  rw [bgpRadixBit_eq_getMsbD _ family.wholeBytes within, bgpRadixBit_eq_getMsbD _ family.wholeBytes within,
    normalized_getMsbD fits within]
  simp [inside]

/-- Masked prefixes are determined by their paths. -/
theorem Masked.eq_of_path {first second : Prefix family.width} (firstMasked : Masked family first)
    (secondMasked : Masked family second)
    (same : radixPath first.addr first.len = radixPath second.addr second.len) : first = second := by
  obtain ⟨length, bits⟩ := radixPath_eq_iff.mp same
  have address : first.addr = second.addr := by
    apply BitVec.eq_of_getMsbD_eq
    intro bit inside
    rw [← firstMasked.2, ← secondMasked.2, normalized_getMsbD firstMasked.1 inside,
      normalized_getMsbD secondMasked.1 inside, ← length]
    by_cases early : bit < first.len
    · have agreed := bits bit early
      rw [bgpRadixBit_eq_getMsbD _ family.wholeBytes inside,
        bgpRadixBit_eq_getMsbD _ family.wholeBytes inside] at agreed
      rw [agreed]
    · simp [early]
  cases first
  cases second
  simp only at address length
  subst address length
  rfl

/-- A prefix covers an address exactly when its path begins the path of the address. -/
theorem addrMatches_iff_path (fits : pfx.len ≤ family.width) (dest : BitVec family.width) :
    addrMatches family pfx dest = true ↔
      (radixPath dest family.width).take pfx.len = radixPath pfx.addr pfx.len := by
  rw [radixPath_take dest fits, radixPath_eq_iff]
  have unfolded : addrMatches family pfx dest =
      ((dest &&& family.cidrToMask pfx.len) == (pfx.addr &&& family.cidrToMask pfx.len)) := by
    simp [addrMatches, Nat.not_lt.mpr fits]
  rw [unfolded, beq_iff_eq]
  constructor
  · intro same
    refine ⟨rfl, fun bit early => ?_⟩
    have inside : bit < family.width := Nat.lt_of_lt_of_le early fits
    have agreed := congrArg (fun addr => addr.getMsbD bit) same
    simp only [BitVec.getMsbD_and, family.mask_getMsbD pfx.len fits bit inside, early, decide_true,
      Bool.and_true] at agreed
    rw [bgpRadixBit_eq_getMsbD _ family.wholeBytes inside, bgpRadixBit_eq_getMsbD _ family.wholeBytes inside]
    exact agreed
  · rintro ⟨-, bits⟩
    apply BitVec.eq_of_getMsbD_eq
    intro bit inside
    simp only [BitVec.getMsbD_and, family.mask_getMsbD pfx.len fits bit inside]
    by_cases early : bit < pfx.len
    · have agreed := bits bit early
      rw [bgpRadixBit_eq_getMsbD _ family.wholeBytes inside,
        bgpRadixBit_eq_getMsbD _ family.wholeBytes inside] at agreed
      rw [agreed]
    · simp [early]

end Network

namespace Radix

variable {V : Type} {width : Nat} {tree : Radix V} {addr : BitVec width} {len : Nat}

/-- An insert writes the value at one path, or memory is refused and the tree stays. -/
theorem insert_cases (addr : BitVec width) (pruned : tree.root.Pruned) (fits : len ≤ width) (value : V)
    (alloc : Allocator) :
    (∃ after rest, tree.insert addr len value alloc = (.ok, after, rest) ∧ alloc.Spent rest ∧
      after.root.Pruned ∧ ∀ path, after.root.get path =
        if path = radixPath addr len then some value else tree.root.get path) ∨
    (∃ rest, tree.insert addr len value alloc = (.nomem, tree, rest) ∧ alloc.Refused rest) := by
  have stored := BitTrie.insert_stored value (radixPath addr len) tree.root alloc pruned
  simp only [insert, Nat.not_lt.mpr fits, if_false]
  rcases outcome : tree.root.insert value (radixPath addr len) alloc with ⟨done, root, rest⟩
  rw [outcome] at stored
  cases done with
  | true => exact .inl ⟨_, rest, rfl, stored.spent, stored.pruned rfl, stored.written rfl⟩
  | false =>
    obtain ⟨same, refused⟩ := stored.kept rfl
    have back : root = tree.root := same
    subst back
    exact .inr ⟨rest, rfl, refused⟩

/-- Replacing a stored value needs no memory. -/
theorem insert_occupied (pruned : tree.root.Pruned) (fits : len ≤ width) {held : V}
    (occupied : tree.root.get (radixPath addr len) = some held) (value : V) (alloc : Allocator) :
    ∃ after, tree.insert addr len value alloc = (.ok, after, alloc) ∧ after.root.Pruned ∧
      ∀ path, after.root.get path = if path = radixPath addr len then some value else tree.root.get path := by
  obtain ⟨done, unspent⟩ := BitTrie.insert_occupied value alloc occupied
  have stored := BitTrie.insert_stored value (radixPath addr len) tree.root alloc pruned
  simp only [insert, Nat.not_lt.mpr fits, if_false]
  rcases outcome : tree.root.insert value (radixPath addr len) alloc with ⟨flag, root, rest⟩
  rw [outcome] at stored done unspent
  cases done
  cases unspent
  exact ⟨_, rfl, stored.pruned rfl, stored.written rfl⟩

theorem remove_occupied (pruned : tree.root.Pruned) (fits : len ≤ width)
    (occupied : tree.root.get (radixPath addr len) ≠ none) :
    ((tree.remove addr len).2).root.Pruned ∧ ∀ path, ((tree.remove addr len).2).root.get path =
      if path = radixPath addr len then none else tree.root.get path := by
  obtain ⟨after, removed, afterPruned, cleared⟩ := BitTrie.remove_of_occupied pruned occupied
  simp only [remove, Nat.not_lt.mpr fits, if_false, removed]
  exact ⟨afterPruned, cleared⟩

end Radix

end Libbgp
