/-
The radix tree over whole runs: a finite map from masked prefixes to values.
-/

import Libbgp.Proof.Radix
import Mathlib.Data.Set.Card

namespace Libbgp

open Library

/-- A call of the tree; the insert comes with the answers to its memory requests. -/
inductive RadixOp (width : Nat) (V : Type) where
  | insert (pfx : Prefix width) (value : V) (alloc : Allocator)
  | remove (pfx : Prefix width)

/-- The prefix that a call is about. -/
def RadixOp.pfx {width : Nat} {V : Type} : RadixOp width V → Prefix width
  | .insert pfx _ _ | .remove pfx => pfx

/-- The value that a call leaves at its prefix when it succeeds. -/
def RadixOp.value {width : Nat} {V : Type} : RadixOp width V → Option V
  | .insert _ value _ => some value
  | .remove _ => none

def Radix.perform {width : Nat} {V : Type} (tree : Radix V) : RadixOp width V → Err × Radix V
  | .insert pfx value alloc =>
    let (err, after, _) := tree.insert pfx.addr pfx.len value alloc
    (err, after)
  | .remove pfx => tree.remove pfx.addr pfx.len

section Runs

variable {family : AddrFamily} {V : Type}

/-- What a call does to the map: one that succeeds sets the value of one prefix. -/
def RadixOp.effect (op : RadixOp family.width V) (err : Err) (map : Prefix family.width → Option V) :
    Prefix family.width → Option V :=
  if err = .ok then Function.update map (lpmNormalizePrefix family op.pfx) op.value else map

/-- The tree after some calls, and the map that they make. -/
def radixRun (family : AddrFamily) (ops : List (RadixOp family.width V)) : Radix V × (Prefix family.width → Option V) :=
  ops.foldl (fun state op => ((state.1.perform op).2, op.effect (state.1.perform op).1 state.2)) (.init, fun _ => none)

/-- The tree stores the map: one value for each prefix, no empty branch, and the number of prefixes. -/
structure Represents (family : AddrFamily) (tree : Radix V) (map : Prefix family.width → Option V) : Prop where
  masked : ∀ pfx, map pfx ≠ none → Masked family pfx
  stored : ∀ pfx : Prefix family.width, pfx.len ≤ family.width →
    tree.root.get (radixPath pfx.addr pfx.len) = map (lpmNormalizePrefix family pfx)
  finite : {pfx | map pfx ≠ none}.Finite
  counted : tree.len = {pfx | map pfx ≠ none}.ncard
  pruned : tree.root.Pruned

/-- The value is that of the longest prefix that covers the address. -/
def LongestMatch (map : Prefix family.width → Option V) (addr : BitVec family.width) (value : V) : Prop :=
  ∃ pfx, map pfx = some value ∧ addrMatches family pfx addr = true ∧
    ∀ other, addrMatches family other addr = true → pfx.len < other.len → map other = none

theorem represents_init : Represents family (.init : Radix V) (fun _ => none) where
  masked _ held := absurd rfl held
  stored _ _ := BitTrie.get_nil _
  finite := by simp
  counted := by simp [Radix.init]
  pruned := trivial

variable {tree after : Radix V} {map : Prefix family.width → Option V} {pfx : Prefix family.width} {value : Option V}

theorem Represents.path_iff {other : Prefix family.width} (fits : pfx.len ≤ family.width)
    (otherFits : other.len ≤ family.width) : radixPath other.addr other.len = radixPath pfx.addr pfx.len ↔
      lpmNormalizePrefix family other = lpmNormalizePrefix family pfx := by
  rw [← radixPath_normalized fits, ← radixPath_normalized otherFits]
  constructor
  · exact (normalized_masked otherFits).eq_of_path (normalized_masked fits)
  · intro same
    rw [same]

/-- One written path is one changed prefix; the count follows from whether a value was there. -/
theorem Represents.update (represents : Represents family tree map) (fits : pfx.len ≤ family.width)
    (pruned : after.root.Pruned)
    (written : ∀ path, after.root.get path = if path = radixPath pfx.addr pfx.len then value else tree.root.get path)
    (counted : after.len = (Set.ncard
      {other | Function.update map (lpmNormalizePrefix family pfx) value other ≠ none})) :
    Represents family after (Function.update map (lpmNormalizePrefix family pfx) value) where
  masked other held := by
    by_cases here : other = lpmNormalizePrefix family pfx
    · rw [here]
      exact normalized_masked fits
    · rw [Function.update_of_ne here] at held
      exact represents.masked other held
  stored other otherFits := by
    rw [written, Function.update_apply, represents.stored other otherFits]
    exact if_congr (Represents.path_iff fits otherFits) rfl rfl
  finite := by
    refine (represents.finite.insert (lpmNormalizePrefix family pfx)).subset fun other held => ?_
    by_cases here : other = lpmNormalizePrefix family pfx
    · exact .inl here
    · have held : Function.update map _ value other ≠ none := held
      rw [Function.update_of_ne here] at held
      exact .inr held
  counted := counted
  pruned := pruned

theorem support_some (map : Prefix family.width → Option V) (key : Prefix family.width) (held : V) :
    {other | Function.update map key (some held) other ≠ none} = insert key {other | map other ≠ none} := by
  ext other
  by_cases here : other = key
  · simp [here]
  · simp [here]

theorem support_none (map : Prefix family.width → Option V) (key : Prefix family.width) :
    {other | Function.update map key none other ≠ none} = {other | map other ≠ none} \ {key} := by
  ext other
  by_cases here : other = key
  · simp [here]
  · simp [here]

section

variable (represents : Represents family tree map)

include represents

/-- An insert sets one prefix, or memory is refused and the tree stays as it is. -/
theorem Represents.insert (fits : pfx.len ≤ family.width) (held : V) (alloc : Allocator) :
    (∃ after rest, tree.insert pfx.addr pfx.len held alloc = (.ok, after, rest) ∧
      Represents family after (Function.update map (lpmNormalizePrefix family pfx) (some held))) ∨
    ∃ rest, tree.insert pfx.addr pfx.len held alloc = (.nomem, tree, rest) ∧ alloc.Refused rest := by
  rcases Radix.insert_cases pfx.addr represents.pruned fits held alloc with
    ⟨after, rest, done, -, pruned, written⟩ | refused
  · have sized : after.len =
        if (tree.root.get (radixPath pfx.addr pfx.len)).isSome then tree.len else tree.len + 1 := by
      simp only [Radix.insert, Nat.not_lt.mpr fits, if_false] at done
      split at done
      · exact congrArg (fun result => result.2.1.len) done.symm
      · cases congrArg Prod.fst done
    refine .inl ⟨after, rest, done, represents.update fits pruned written ?_⟩
    rw [sized, support_some, represents.stored pfx fits, represents.counted]
    by_cases known : (map (lpmNormalizePrefix family pfx)).isSome = true
    · rw [if_pos known, Set.insert_eq_of_mem (Option.isSome_iff_ne_none.mp known)]
    · rw [if_neg known, Set.ncard_insert_of_notMem (fun inside => known (Option.isSome_iff_ne_none.mpr inside))
        represents.finite]
  · exact .inr refused

/-- A removal deletes one prefix, or there is none to delete. -/
theorem Represents.remove (fits : pfx.len ≤ family.width) :
    (map (lpmNormalizePrefix family pfx) ≠ none ∧ (tree.remove pfx.addr pfx.len).1 = .ok ∧
      Represents family (tree.remove pfx.addr pfx.len).2 (Function.update map (lpmNormalizePrefix family pfx) none)) ∨
    (map (lpmNormalizePrefix family pfx) = none ∧ tree.remove pfx.addr pfx.len = (.notFound, tree)) := by
  have stored := represents.stored pfx fits
  by_cases held : map (lpmNormalizePrefix family pfx) = none
  · have cleared := BitTrie.clear_spec (radixPath pfx.addr pfx.len) tree.root represents.pruned.below
    have absent : tree.root.remove (radixPath pfx.addr pfx.len) = none := by
      rw [BitTrie.remove]
      split at cleared
      · rename_i none
        rw [none]
        rfl
      · exact absurd (stored.trans held) cleared.1
    refine .inr ⟨held, ?_⟩
    simp [Radix.remove, Nat.not_lt.mpr fits, absent]
  · have occupied : tree.root.get (radixPath pfx.addr pfx.len) ≠ none := by rwa [stored]
    obtain ⟨root, removed, -⟩ := BitTrie.remove_of_occupied represents.pruned occupied
    obtain ⟨pruned, written⟩ := Radix.remove_occupied represents.pruned fits occupied
    have shape : tree.remove pfx.addr pfx.len = (.ok, ⟨root, tree.len - 1⟩) := by
      simp [Radix.remove, Nat.not_lt.mpr fits, removed]
    refine .inl ⟨held, by rw [shape], represents.update fits pruned written ?_⟩
    rw [shape, support_none, represents.counted]
    exact (Set.ncard_sdiff_singleton_of_mem held).symm

/-- The lookup returns the value of the longest prefix that covers the address. -/
theorem Represents.lookup_iff (addr : BitVec family.width) (held : V) :
    tree.lookupLpm addr = some held ↔ LongestMatch map addr held := by
  have covers (len : Nat) (fits : len ≤ family.width) :
      tree.root.get ((radixPath addr family.width).take len) = map (lpmNormalizePrefix family ⟨addr, len⟩) ∧
        addrMatches family (lpmNormalizePrefix family ⟨addr, len⟩) addr = true ∧
        (lpmNormalizePrefix family ⟨addr, len⟩).len = len := by
    have path := @radixPath_normalized family ⟨addr, len⟩ fits
    have same : (lpmNormalizePrefix family ⟨addr, len⟩).len = len := by rw [lpmNormalizePrefix_of_le fits]
    refine ⟨?_, ?_, same⟩
    · rw [radixPath_take addr fits]
      exact represents.stored ⟨addr, len⟩ fits
    · rw [addrMatches_iff_path (@normalized_masked family ⟨addr, len⟩ fits).1, path, same]
      exact radixPath_take addr fits
  have found (other : Prefix family.width) (known : map other ≠ none) (covered : addrMatches family other addr = true) :
      tree.root.get ((radixPath addr family.width).take other.len) = map other := by
    obtain ⟨fits, fixed⟩ := represents.masked other known
    rw [(addrMatches_iff_path fits addr).mp covered, represents.stored other fits, fixed]
  rw [Radix.lookupLpm, BitTrie.deepest_eq_some_iff, radixPath_length]
  constructor
  · rintro (⟨depth, inside, here, longer⟩ | ⟨-, impossible⟩)
    · obtain ⟨value, covered, sized⟩ := covers depth inside
      refine ⟨_, value.symm.trans here, covered, fun other otherCovered more => ?_⟩
      by_contra known
      rw [sized] at more
      exact known ((found other known otherCovered).symm.trans (longer _ more (represents.masked other known).1))
    · cases impossible
  · rintro ⟨pfx, value, covered, longest⟩
    have known : map pfx ≠ none := by simp [value]
    refine .inl ⟨pfx.len, (represents.masked pfx known).1, (found pfx known covered).trans value,
      fun longer more inside => ?_⟩
    obtain ⟨value, covered, sized⟩ := covers longer inside
    rw [value]
    exact longest _ covered (sized.symm ▸ more)

/-- No match is found exactly where no prefix matches. -/
theorem Represents.lookup_none (addr : BitVec family.width) :
    tree.lookupLpm addr = none ↔ ∀ pfx, addrMatches family pfx addr = true → map pfx = none := by
  rw [Option.eq_none_iff_forall_ne_some]
  constructor
  · intro missing pfx covered
    by_contra known
    -- Some covering prefix is stored, so the longest of the finitely many gives a result.
    obtain ⟨longest, ⟨held, matched⟩, most⟩ :=
      Set.exists_max_image {other | map other ≠ none ∧ addrMatches family other addr = true}
      Prefix.len (represents.finite.subset fun other both => both.1) ⟨pfx, known, covered⟩
    obtain ⟨value, stored⟩ := Option.ne_none_iff_exists'.mp held
    refine missing value ((represents.lookup_iff addr value).mpr
      ⟨longest, stored, matched, fun other otherMatched more => ?_⟩)
    by_contra otherHeld
    exact absurd (most other ⟨otherHeld, otherMatched⟩) (Nat.not_le.mpr more)
  · intro none value found
    obtain ⟨pfx, stored, covered, -⟩ := (represents.lookup_iff addr value).mp found
    cases (none pfx covered).symm.trans stored

end

/-- What a call can do to a tree. -/
inductive Performs (tree : Radix V) (map : Prefix family.width → Option V) : RadixOp family.width V → Prop where
  | refused {op : RadixOp family.width V} (long : family.width < op.pfx.len)
      (kept : tree.perform op = (.invalid, tree)) :
      Performs tree map op
  | unable {pfx : Prefix family.width} {held : V} {alloc rest : Allocator} (fits : pfx.len ≤ family.width)
      (short : alloc.Refused rest) (kept : tree.perform (.insert pfx held alloc) = (.nomem, tree)) :
      Performs tree map (.insert pfx held alloc)
  | missing {pfx : Prefix family.width} (fits : pfx.len ≤ family.width)
      (absent : map (lpmNormalizePrefix family pfx) = none)
      (kept : tree.perform (.remove pfx) = (.notFound, tree)) : Performs tree map (.remove pfx)
  | done {op : RadixOp family.width V} (fits : op.pfx.len ≤ family.width)
      (held : op.value = none → map (lpmNormalizePrefix family op.pfx) ≠ none) (success : (tree.perform op).1 = .ok)
      (after : Represents family (tree.perform op).2
        (Function.update map (lpmNormalizePrefix family op.pfx) op.value)) :
      Performs tree map op

/-- Each operation on the tree is one on the map. -/
theorem Represents.performs (represents : Represents family tree map) (op : RadixOp family.width V) :
    Performs tree map op := by
  rcases Nat.lt_or_ge family.width op.pfx.len with long | fits
  · refine .refused long ?_
    cases op with
    | insert pfx held alloc => simp [Radix.perform, Radix.insert, show family.width < pfx.len from long]
    | remove pfx => simp [Radix.perform, Radix.remove, show family.width < pfx.len from long]
  · cases op with
    | insert pfx held alloc =>
      have fits : pfx.len ≤ family.width := fits
      rcases represents.insert fits held alloc with ⟨after, rest, done, set⟩ | ⟨rest, refused, short⟩
      · have shape : tree.perform (.insert pfx held alloc) = (.ok, after) := by rw [Radix.perform, done]
        exact .done fits (by simp [RadixOp.value]) (by rw [shape]) (by rw [shape]; exact set)
      · exact .unable fits short (by rw [Radix.perform, refused])
    | remove pfx =>
      have fits : pfx.len ≤ family.width := fits
      rcases represents.remove fits with ⟨held, done, cleared⟩ | ⟨absent, missing⟩
      · exact .done fits (fun _ => held) done cleared
      · exact .missing fits absent missing

/-- Each operation on the tree is the operation on the map. -/
theorem Represents.perform (represents : Represents family tree map) (op : RadixOp family.width V) :
    Represents family (tree.perform op).2 (op.effect (tree.perform op).1 map) := by
  have kept {err : Err} (failed : err ≠ .ok) (same : tree.perform op = (err, tree)) :
      Represents family (tree.perform op).2 (op.effect (tree.perform op).1 map) := by
    rw [same, RadixOp.effect, if_neg failed]
    exact represents
  cases represents.performs op with
  | refused _ same | unable _ _ same | missing _ _ same => exact kept (by decide) same
  | done _ _ success after =>
    rw [RadixOp.effect, if_pos success]
    exact after

/-- After every run the tree represents the map. -/
theorem run_represents (ops : List (RadixOp family.width V)) :
    Represents family (radixRun family ops).1 (radixRun family ops).2 := by
  have steps (state : Radix V × (Prefix family.width → Option V)) (start : Represents family state.1 state.2) :
      Represents family (ops.foldl (fun state op =>
        ((state.1.perform op).2, op.effect (state.1.perform op).1 state.2)) state).1
        (ops.foldl (fun state op => ((state.1.perform op).2, op.effect (state.1.perform op).1 state.2)) state).2 := by
    induction ops generalizing state with
    | nil => exact start
    | cons op rest ih => exact ih _ (start.perform op)
  exact steps _ represents_init

/-- After any calls the tree is the finite map that they make: a call that fails changes nothing, a removal
finds exactly the prefixes of the map, and a lookup finds the longest prefix of the map that covers an address. -/
theorem radix_tree_is_map (ops : List (RadixOp family.width V)) :
    Represents family (radixRun family ops).1 (radixRun family ops).2 ∧
      (∀ op : RadixOp family.width V, ((radixRun family ops).1.perform op).1 ≠ .ok →
        ((radixRun family ops).1.perform op).2 = (radixRun family ops).1) ∧
      (∀ (pfx : Prefix family.width) value alloc, pfx.len ≤ family.width →
        ((radixRun family ops).1.perform (.insert pfx value alloc)).1 = .ok ∨
        ((radixRun family ops).1.perform (.insert pfx value alloc)).1 = .nomem ∧ ∃ rest, alloc.Refused rest) ∧
      (∀ pfx : Prefix family.width, pfx.len ≤ family.width → ((radixRun family ops).1.perform (.remove pfx)).1 =
        if (radixRun family ops).2 (lpmNormalizePrefix family pfx) = none then .notFound else .ok) ∧
      (∀ addr value, (radixRun family ops).1.lookupLpm addr = some value ↔
        LongestMatch (radixRun family ops).2 addr value) ∧
      ∀ addr, (radixRun family ops).1.lookupLpm addr = none ↔
        ∀ pfx, addrMatches family pfx addr = true → (radixRun family ops).2 pfx = none := by
  have represents := run_represents ops
  refine ⟨represents, fun op failed => ?_, fun pfx value alloc fits => ?_, fun pfx fits => ?_, represents.lookup_iff,
    represents.lookup_none⟩
  · cases represents.performs op with
    | refused _ same | unable _ _ same | missing _ _ same => rw [same]
    | done _ _ success _ => exact absurd success failed
  · cases represents.performs (.insert pfx value alloc) with
    | refused long _ => exact absurd fits (Nat.not_le.mpr long)
    | unable _ short same => exact .inr ⟨by rw [same], _, short⟩
    | done _ _ success _ => exact .inl success
  · cases represents.performs (.remove pfx) with
    | refused long _ => exact absurd fits (Nat.not_le.mpr long)
    | missing _ absent same => rw [same, if_pos absent]
    | done _ held success _ => exact success.trans (if_neg (held rfl)).symm

end Runs

end Libbgp
