import Libbgp.Library.Allocator

namespace Library

/-- A binary tree indexed by bit strings; `nil` is a missing node. -/
inductive BitTrie (V : Type) where
  | nil
  | node (value : Option V) (zero one : BitTrie V)
  deriving DecidableEq

namespace BitTrie

variable {V : Type}
  {trie : BitTrie V} {value : V} {zero one next : BitTrie V} {bits : List Bool} {alloc rest : Allocator} {held : V}
  {outcome : Bool × BitTrie V × Allocator}

/-- A node without a value and without children. -/
def bare : BitTrie V := node none nil nil

/-- The child that a bit selects. -/
def child : BitTrie V → Bool → BitTrie V
  | nil, _ => nil
  | node _ zero one, bit => if bit then one else zero

/-- The node with the child at one bit replaced. -/
def setChild : BitTrie V → Bool → BitTrie V → BitTrie V
  | nil, _, _ => nil
  | node value zero one, bit, next => if bit then node value zero next else node value next one

/-- The node carries neither a value nor a child. -/
def isBare : BitTrie V → Bool
  | node none nil nil => true
  | _ => false

/-- A bare node is dropped from its parent. -/
def trim (trie : BitTrie V) : BitTrie V :=
  if trie.isBare then nil else trie

/-- The value stored at exactly this bit string. -/
def get : BitTrie V → List Bool → Option V
  | nil, _ => none
  | node value _ _, [] => value
  | node _ zero one, bit :: bits => get (if bit then one else zero) bits

/-- Every node carries a value or leads to one. -/
def Pruned : BitTrie V → Prop
  | nil => True
  | node value zero one =>
    (value ≠ none ∨ zero ≠ nil ∨ one ≠ nil) ∧ Pruned zero ∧ Pruned one

/-- Put the outcome of a store back under its parent. A failed store leaves no bare child behind. -/
def graft (parent : BitTrie V) (bit : Bool) :
    Bool × BitTrie V × Allocator → Bool × BitTrie V × Allocator
  | (true, next, alloc) => (true, parent.setChild bit next, alloc)
  | (false, next, alloc) => (false, parent.setChild bit next.trim, alloc)

/-- Store below an existing node, creating the missing nodes of the path. -/
def store (value : V) : List Bool → BitTrie V → Allocator → Bool × BitTrie V × Allocator
  | _, nil, alloc => (false, nil, alloc)
  | [], node _ zero one, alloc => (true, node (some value) zero one, alloc)
  | bit :: bits, node held zero one, alloc =>
    match (node held zero one).child bit with
    | nil =>
      match alloc.request with
      | (true, alloc) => graft (node held zero one) bit (store value bits bare alloc)
      | (false, alloc) => (false, node held zero one, alloc)
    | next => graft (node held zero one) bit (store value bits next alloc)

/-- A failed store also drops a bare root. -/
def settle : Bool × BitTrie V × Allocator → Bool × BitTrie V × Allocator
  | (true, trie, alloc) => (true, trie, alloc)
  | (false, trie, alloc) => (false, trie.trim, alloc)

/-- Store a value, with a new root where there is none. -/
def insert (value : V) (bits : List Bool) : BitTrie V → Allocator → Bool × BitTrie V × Allocator
  | nil, alloc =>
    match alloc.request with
    | (true, alloc) => settle (store value bits bare alloc)
    | (false, alloc) => (false, nil, alloc)
  | trie, alloc => settle (store value bits trie alloc)

/-- Clear a value and drop the nodes that become bare; `none` when nothing is stored there. -/
def clear : List Bool → BitTrie V → Option (BitTrie V)
  | _, nil => none
  | [], node value zero one => if value.isSome then some (node none zero one) else none
  | bit :: bits, node value zero one =>
    match clear bits ((node value zero one).child bit) with
    | some next => some ((node value zero one).setChild bit next.trim)
    | none => none

/-- Remove a value together with the root when it becomes bare. -/
def remove (bits : List Bool) (trie : BitTrie V) : Option (BitTrie V) :=
  (clear bits trie).map trim

/-- The deepest value on the path, or the fallback. -/
def deepest : BitTrie V → List Bool → Option V → Option V
  | nil, _, best => best
  | node value _ _, [], best => value.or best
  | node value zero one, bit :: bits, best =>
    deepest (if bit then one else zero) bits (value.or best)

@[simp] theorem get_nil (bits : List Bool) : get (nil : BitTrie V) bits = none := by
  cases bits <;> rfl

@[simp] theorem get_node_nil (value : Option V) (zero one : BitTrie V) :
    get (node value zero one) [] = value := rfl

@[simp] theorem get_node_cons (value : Option V) (zero one : BitTrie V) (bit : Bool) (bits : List Bool) :
    get (node value zero one) (bit :: bits) = get ((node value zero one).child bit) bits := by
  cases bit <;> rfl

@[simp] theorem setChild_child (value : Option V) (zero one : BitTrie V) (bit : Bool) :
    (node value zero one).setChild bit ((node value zero one).child bit) = node value zero one := by
  cases bit <;> rfl

theorem get_setChild (value : Option V) (zero one next : BitTrie V) (bit : Bool) (bits : List Bool) :
    get ((node value zero one).setChild bit next) bits =
      match bits with
      | [] => value
      | other :: rest => if other = bit then get next rest
          else get ((node value zero one).child other) rest := by
  cases bits with
  | nil => cases bit <;> rfl
  | cons other rest => cases bit <;> cases other <;> rfl

@[simp] theorem get_bare (bits : List Bool) : get (bare : BitTrie V) bits = none := by
  cases bits with
  | nil => rfl
  | cons bit bits => cases bit <;> simp [bare, child]

theorem eq_bare_of_isBare (empty : trie.isBare = true) : trie = bare := by
  match trie with
  | node none nil nil => rfl

theorem isBare_eq_false_iff {value : Option V} :
    (node value zero one).isBare = false ↔ value ≠ none ∨ zero ≠ nil ∨ one ≠ nil := by
  cases value <;> cases zero <;> cases one <;> simp [isBare]

@[simp] theorem get_trim (trie : BitTrie V) (bits : List Bool) : get trie.trim bits = get trie bits := by
  unfold trim
  split
  · next empty => rw [eq_bare_of_isBare empty, get_nil, get_bare]
  · rfl

@[simp] theorem trim_bare : (bare : BitTrie V).trim = nil := rfl

theorem trim_eq_of_pruned (pruned : trie.Pruned) : trie.trim = trie := by
  cases trie with
  | nil => rfl
  | node value zero one =>
    have filled := isBare_eq_false_iff.mpr pruned.1
    simp [trim, filled]

/-- Both subtrees are pruned; the node itself may be bare. -/
def PrunedBelow : BitTrie V → Prop
  | nil => True
  | node _ zero one => Pruned zero ∧ Pruned one

theorem Pruned.below (pruned : trie.Pruned) : trie.PrunedBelow := by
  cases trie with
  | nil => trivial
  | node value zero one => exact pruned.2

theorem PrunedBelow.trim (below : trie.PrunedBelow) : trie.trim.Pruned := by
  cases trie with
  | nil => trivial
  | node value zero one =>
    unfold BitTrie.trim
    split
    · trivial
    · next filled => exact ⟨isBare_eq_false_iff.mp (by simpa using filled), below⟩

theorem prunedBelow_bare : (bare : BitTrie V).PrunedBelow := ⟨trivial, trivial⟩

theorem PrunedBelow.child {value : Option V} (below : (node value zero one).PrunedBelow) (bit : Bool) :
    ((node value zero one).child bit).Pruned := by
  cases bit
  · exact below.1
  · exact below.2

theorem PrunedBelow.setChild {value : Option V} (below : (node value zero one).PrunedBelow) (bit : Bool)
    (pruned : next.Pruned) : ((node value zero one).setChild bit next).PrunedBelow := by
  cases bit
  · exact ⟨pruned, below.2⟩
  · exact ⟨below.1, pruned⟩

/-- What a store below a node does, whether it succeeds or is refused memory. -/
structure Stored (value : V) (bits : List Bool) (trie : BitTrie V) (alloc : Allocator)
    (outcome : Bool × BitTrie V × Allocator) : Prop where
  spent : alloc.Spent outcome.2.2
  pruned : outcome.1 = true → outcome.2.1.Pruned
  written : outcome.1 = true → ∀ other,
    get outcome.2.1 other = if other = bits then some value else get trie other
  kept : outcome.1 = false → outcome.2.1 = trie ∧ alloc.Refused outcome.2.2

theorem Stored.failure (refused : alloc.Refused rest) : Stored value bits trie alloc (false, trie, rest) :=
  ⟨refused.spent, fun done => Bool.noConfusion done, fun done => Bool.noConfusion done,
    fun _ => ⟨rfl, refused⟩⟩

theorem Stored.success {after : BitTrie V} (spent : alloc.Spent rest) (pruned : after.Pruned)
    (written : ∀ other, get after other = if other = bits then some value else get trie other) :
    Stored value bits trie alloc (true, after, rest) :=
  ⟨spent, fun _ => pruned, fun _ => written, fun failed => Bool.noConfusion failed⟩

/-- A store into a child is a store into its parent. -/
theorem Stored.graft {held : Option V} {bit : Bool} (below : (node held zero one).PrunedBelow)
    (spent : alloc.Spent rest) (stored : Stored value bits next rest outcome)
    (same : ∀ other, get next other = get ((node held zero one).child bit) other)
    (undone : next.trim = (node held zero one).child bit) :
    Stored value (bit :: bits) (node held zero one) alloc
      (BitTrie.graft (node held zero one) bit outcome) := by
  obtain ⟨done, after, left⟩ := outcome
  cases done with
  | true =>
    have afterPruned : after.Pruned := stored.pruned rfl
    have written : ∀ other, get after other = if other = bits then some value else get next other :=
      stored.written rfl
    refine .success (spent.trans stored.spent) ?_ fun other => ?_
    · have present : after ≠ nil := by
        rintro rfl
        simpa using written bits
      cases bit
      · exact ⟨.inr (.inl present), afterPruned, below.2⟩
      · exact ⟨.inr (.inr present), below.1, afterPruned⟩
    · rw [get_setChild]
      cases other with
      | nil => simp
      | cons first tail =>
        by_cases turn : first = bit
        · subst turn
          simp only [if_true, List.cons.injEq, true_and, get_node_cons]
          rw [written tail, same tail]
        · simp [turn]
  | false =>
    obtain ⟨unchanged, refused⟩ := stored.kept rfl
    have back : after = next := unchanged
    have restored : (node held zero one).setChild bit after.trim = node held zero one := by
      rw [back, undone, setChild_child]
    change Stored _ _ _ _ (false, (node held zero one).setChild bit after.trim, left)
    rw [restored]
    exact .failure (spent.trans_refused refused)

/-- What a store does, with memory and without. -/
theorem store_stored (value : V) (bits : List Bool) (trie : BitTrie V) (alloc : Allocator)
    (present : trie ≠ nil) (below : trie.PrunedBelow) :
    Stored value bits trie alloc (store value bits trie alloc) := by
  induction bits generalizing trie alloc with
  | nil =>
    cases trie with
    | nil => exact absurd rfl present
    | node held zero one =>
      refine .success (.refl _) ⟨.inl (by simp), below⟩ fun other => ?_
      cases other <;> simp [child]
  | cons bit bits ih =>
    cases trie with
    | nil => exact absurd rfl present
    | node held zero one =>
      have childPruned := below.child bit
      unfold store
      split
      · next missing =>
          rcases alloc.request_cases with ⟨rest, granted, spent⟩ | ⟨rest, denied, refused⟩
          · rw [granted]
            apply (ih bare rest (by simp [bare]) prunedBelow_bare).graft below spent
            · intro other
              rw [missing, get_nil, get_bare]
            · rw [missing, trim_bare]
          · rw [denied]
            exact .failure refused
      · next found =>
          have childPresent : (node held zero one).child bit ≠ nil := found
          exact (ih _ alloc childPresent childPruned.below).graft below
            (.refl _) (fun _ => rfl) (trim_eq_of_pruned childPruned)

/-- Dropping a bare root after a failure gives the trie from before the root was created. -/
theorem Stored.settle {root : BitTrie V} (spent : alloc.Spent rest) (stored : Stored value bits root rest outcome)
    (same : ∀ other, get root other = get trie other) (undone : root.trim = trie) :
    Stored value bits trie alloc (BitTrie.settle outcome) := by
  obtain ⟨done, after, left⟩ := outcome
  cases done with
  | true =>
    refine .success (spent.trans stored.spent) (stored.pruned rfl) fun other => ?_
    rw [← same other]
    exact stored.written rfl other
  | false =>
    obtain ⟨unchanged, refused⟩ := stored.kept rfl
    have back : after = root := unchanged
    change Stored _ _ _ _ (false, after.trim, left)
    rw [back, undone]
    exact .failure (spent.trans_refused refused)

/-- An insert writes one bit string and keeps the trie pruned; a refused one changes nothing. -/
theorem insert_stored (value : V) (bits : List Bool) (trie : BitTrie V) (alloc : Allocator)
    (pruned : trie.Pruned) : Stored value bits trie alloc (insert value bits trie alloc) := by
  cases trie with
  | nil =>
    simp only [insert]
    rcases alloc.request_cases with ⟨rest, granted, spent⟩ | ⟨rest, denied, refused⟩
    · rw [granted]
      exact (store_stored value bits bare rest (by simp [bare]) prunedBelow_bare).settle spent
        (fun other => by rw [get_nil, get_bare]) trim_bare
    · rw [denied]
      exact .failure refused
  | node held zero one =>
    simp only [insert]
    exact (store_stored value bits _ alloc (by simp) pruned.below).settle
      (.refl _) (fun _ => rfl) (trim_eq_of_pruned pruned)

/-- An occupied bit string needs no new node. -/
theorem store_occupied (value : V) (alloc : Allocator) (occupied : trie.get bits = some held) :
    (store value bits trie alloc).1 = true ∧ (store value bits trie alloc).2.2 = alloc := by
  induction bits generalizing trie with
  | nil =>
    cases trie with
    | nil => simp at occupied
    | node => exact ⟨rfl, rfl⟩
  | cons bit bits ih =>
    cases trie with
    | nil => simp at occupied
    | node old zero one =>
      rw [get_node_cons] at occupied
      have below := ih occupied
      unfold store
      split
      · next missing => simp [missing] at occupied
      · rcases outcome : store value bits ((node old zero one).child bit) alloc with ⟨done, after, left⟩
        rw [outcome] at below
        obtain ⟨granted, unspent⟩ := below
        cases granted
        exact ⟨rfl, unspent⟩

/-- An occupied place is overwritten without new memory. -/
theorem insert_occupied (value : V) (alloc : Allocator) (occupied : trie.get bits = some held) :
    (insert value bits trie alloc).1 = true ∧ (insert value bits trie alloc).2.2 = alloc := by
  cases trie with
  | nil => simp at occupied
  | node old zero one =>
    have below := store_occupied value alloc occupied
    simp only [insert]
    rcases outcome : store value bits (node old zero one) alloc with ⟨done, after, left⟩
    rw [outcome] at below
    obtain ⟨granted, unspent⟩ := below
    cases granted
    exact ⟨rfl, unspent⟩

/-- Clearing finds the value, writes nothing else and leaves pruned subtrees. -/
theorem clear_spec (bits : List Bool) (trie : BitTrie V) (below : trie.PrunedBelow) :
    match clear bits trie with
    | none => get trie bits = none
    | some after => get trie bits ≠ none ∧ after.PrunedBelow ∧
        ∀ other, get after other = if other = bits then none else get trie other := by
  induction bits generalizing trie with
  | nil =>
    cases trie with
    | nil => simp [clear]
    | node held zero one =>
      cases held with
      | none => simp [clear]
      | some held =>
        refine ⟨by simp, below, fun other => ?_⟩
        cases other <;> simp [child]
  | cons bit bits ih =>
    cases trie with
    | nil => simp [clear]
    | node held zero one =>
      have childSpec := ih _ (below.child bit).below
      unfold clear
      generalize clear bits ((node held zero one).child bit) = cleared at childSpec
      rcases cleared with _ | next
      · simpa using childSpec
      · obtain ⟨occupied, nextBelow, gone⟩ := childSpec
        refine ⟨by simpa using occupied, below.setChild bit nextBelow.trim, fun other => ?_⟩
        rw [get_setChild]
        cases other with
        | nil => simp
        | cons first tail =>
          by_cases turn : first = bit
          · subst turn
            simp [gone tail]
          · simp [turn]

/-- Removing an occupied bit string succeeds, keeps the trie pruned and clears only that string. -/
theorem remove_of_occupied (pruned : trie.Pruned) (occupied : get trie bits ≠ none) :
    ∃ after, remove bits trie = some after ∧ after.Pruned ∧
      ∀ other, get after other = if other = bits then none else get trie other := by
  have spec := clear_spec bits trie pruned.below
  unfold remove
  generalize clear bits trie = cleared at spec
  rcases cleared with _ | after
  · exact absurd spec occupied
  · exact ⟨after.trim, rfl, spec.2.1.trim, fun other => by rw [get_trim]; exact spec.2.2 other⟩

/-- The deepest value is at the longest stored initial segment of the path. -/
theorem deepest_eq_some_iff {path : List Bool} {fallback : Option V} :
    deepest trie path fallback = some value ↔
      (∃ depth ≤ path.length, get trie (path.take depth) = some value ∧
        ∀ longer, depth < longer → longer ≤ path.length → get trie (path.take longer) = none) ∨
      ((∀ depth ≤ path.length, get trie (path.take depth) = none) ∧ fallback = some value) := by
  induction path generalizing trie fallback with
  | nil =>
    cases trie with
    | nil => simp [deepest]
    | node held zero one =>
      cases held with
      | none => simp [deepest]
      | some held =>
        simp only [deepest, Option.some_or, List.length_nil, Nat.le_zero, List.take_nil, get_node_nil]
        grind
  | cons bit path ih =>
    cases trie with
    | nil => simp [deepest]
    | node held zero one =>
      have turn : deepest (node held zero one) (bit :: path) fallback =
          deepest ((node held zero one).child bit) path (held.or fallback) := rfl
      rw [turn, ih]
      constructor
      · rintro (⟨depth, inside, found, last⟩ | ⟨missing, kept⟩)
        · refine .inl ⟨depth + 1, by simpa using inside, by simpa using found, ?_⟩
          intro longer above limit
          obtain ⟨shorter, rfl⟩ : ∃ shorter, longer = shorter + 1 := ⟨longer - 1, by omega⟩
          simpa using last shorter (by omega) (by simpa using limit)
        · have tail : ∀ depth, 0 < depth → depth ≤ (bit :: path).length →
              get (node held zero one) ((bit :: path).take depth) = none := by
            intro depth positive limit
            obtain ⟨shorter, rfl⟩ : ∃ shorter, depth = shorter + 1 := ⟨depth - 1, by omega⟩
            simpa using missing shorter (by simpa using limit)
          cases held with
          | none =>
            refine .inr ⟨fun depth limit => ?_, by simpa using kept⟩
            rcases Nat.eq_zero_or_pos depth with rfl | positive
            · rfl
            · exact tail depth positive limit
          | some held => exact .inl ⟨0, by simp, by simpa using kept, fun longer => tail longer⟩
      · rintro (⟨depth, inside, found, last⟩ | ⟨missing, kept⟩)
        · rcases Nat.eq_zero_or_pos depth with rfl | positive
          · refine .inr ⟨fun depth limit => ?_, ?_⟩
            · simpa using last (depth + 1) (by omega) (by simpa using limit)
            · have here : held = some value := by simpa using found
              simp [here]
          · obtain ⟨shorter, rfl⟩ : ∃ shorter, depth = shorter + 1 := ⟨depth - 1, by omega⟩
            refine .inl ⟨shorter, by simpa using inside, by simpa using found, ?_⟩
            intro longer above limit
            simpa using last (longer + 1) (by omega) (by simpa using limit)
        · refine .inr ⟨fun depth limit => ?_, ?_⟩
          · simpa using missing (depth + 1) (by simpa using limit)
          · have here : held = none := by simpa using missing 0 (by simp)
            simp [here, kept]

end BitTrie

end Library
