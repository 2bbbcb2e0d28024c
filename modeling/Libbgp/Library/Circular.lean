/-
A queue in a circular block of slots.
-/

import Mathlib.Data.List.Basic
import Mathlib.Tactic

namespace Library

/-- A queue in a block of slots: it begins at the head and goes on behind the last slot with the first one. -/
structure Circular (A : Type) where
  slots : List (Option A)
  head : Nat
  count : Nat

namespace Circular

variable {A : Type}

def empty : Circular A := ⟨[], 0, 0⟩

/-- The slot of the item at a place of the queue. -/
def place (ring : Circular A) (position : Nat) : Nat := (ring.head + position) % ring.slots.length

/-- The queue, its oldest item first. -/
def items (ring : Circular A) : List A :=
  (List.range ring.count).filterMap fun position => (ring.slots[ring.place position]?).join

/-- Another item, in a ring that has room for it. -/
def push (ring : Circular A) (item : A) : Circular A :=
  { ring with slots := ring.slots.set (ring.place ring.count) (some item), count := ring.count + 1 }

/-- The oldest item is taken out. An empty queue begins at the first slot. -/
def pop (ring : Circular A) : Option A × Circular A :=
  let count := ring.count - 1
  ((ring.slots[ring.head]?).join,
    ⟨ring.slots.set ring.head none, if count = 0 then 0 else (ring.head + 1) % ring.slots.length, count⟩)

/-- The queue is moved to the start of a new block. -/
def resize (ring : Circular A) (size : Nat) : Circular A :=
  ⟨(List.range size).map fun position =>
    if position < ring.count then (ring.slots[ring.place position]?).join else none, 0, ring.count⟩

/-- The ring holds a queue. -/
structure Holds (ring : Circular A) (queue : List A) : Prop where
  count : ring.count = queue.length
  room : queue.length ≤ ring.slots.length
  head : ring.slots ≠ [] → ring.head < ring.slots.length
  stored : ∀ position item, queue[position]? = some item → ring.slots[ring.place position]? = some (some item)

variable {ring : Circular A} {queue : List A} {item : A}

theorem holds_empty : Holds (empty : Circular A) [] :=
  ⟨rfl, Nat.zero_le _, fun some => absurd rfl some, fun _ _ found => nomatch found⟩

theorem filterMap_range (queue : List A) :
    (List.range queue.length).filterMap (fun position => queue[position]?) = queue := by
  induction queue with
  | nil => rfl
  | cons first rest ih =>
    rw [List.length_cons, List.range_succ_eq_map, List.filterMap_cons, List.filterMap_map]
    exact congrArg (first :: ·) ih

theorem Holds.items (holds : ring.Holds queue) : ring.items = queue := by
  refine Eq.trans ?_ (filterMap_range queue)
  rw [Circular.items, holds.count]
  refine List.filterMap_congr fun position member => ?_
  have inside : position < queue.length := List.mem_range.mp member
  rw [holds.stored position _ (List.getElem?_eq_getElem inside), List.getElem?_eq_getElem inside]
  rfl

/-- Different places of the queue are in different slots. -/
theorem place_injective {first second : Nat} (inside : first < ring.slots.length) (other : second < ring.slots.length)
    (same : ring.place first = ring.place second) : first = second := by
  have equal : first ≡ second [MOD ring.slots.length] := Nat.ModEq.add_left_cancel' ring.head same
  exact Nat.ModEq.eq_of_lt_of_lt equal inside other

theorem place_lt (some : ring.slots ≠ []) (position : Nat) : ring.place position < ring.slots.length :=
  Nat.mod_lt _ (List.length_pos_iff.mpr some)

/-- A pushed item comes last. -/
theorem Holds.push (holds : ring.Holds queue) (room : queue.length < ring.slots.length) (item : A) :
    (ring.push item).Holds (queue ++ [item]) := by
  have some : ring.slots ≠ [] := List.ne_nil_of_length_pos (Nat.zero_lt_of_lt room)
  have size : (ring.push item).slots.length = ring.slots.length := List.length_set
  have place (position : Nat) : (ring.push item).place position = ring.place position := by
    rw [Circular.place, size]
    rfl
  refine ⟨?_, ?_, fun _ => ?_, fun position found stored => ?_⟩
  · rw [List.length_append, ← holds.count]
    rfl
  · rw [size, List.length_append]
    exact room
  · rw [size]
    exact holds.head some
  · rw [place]
    show (ring.slots.set (ring.place ring.count) _)[ring.place position]? = _
    rcases Nat.lt_or_ge position queue.length with earlier | last
    · rw [List.getElem?_append_left earlier] at stored
      have apart : ring.place ring.count ≠ ring.place position := by
        intro same
        rw [holds.count] at same
        have equal := place_injective room (Nat.lt_trans earlier room) same
        omega
      rw [List.getElem?_set_ne apart]
      exact holds.stored position found stored
    · rw [List.getElem?_append_right last] at stored
      obtain ⟨zero, rfl⟩ : position - queue.length = 0 ∧ item = found := by
        rcases Nat.eq_zero_or_pos (position - queue.length) with zero | beyond
        · rw [zero] at stored
          exact ⟨zero, Option.some.inj stored⟩
        · rw [List.getElem?_eq_none beyond] at stored
          cases stored
      obtain rfl : position = queue.length := by omega
      rw [holds.count, List.getElem?_set_self (place_lt some _)]

/-- A pop takes the first item. -/
theorem Holds.pop (holds : ring.Holds (item :: queue)) : ring.pop.1 = some item ∧ ring.pop.2.Holds queue := by
  have room := holds.room
  rw [List.length_cons] at room
  have some : ring.slots ≠ [] := List.ne_nil_of_length_pos (Nat.zero_lt_of_lt room)
  have start := holds.head some
  have first : ring.place 0 = ring.head := Nat.mod_eq_of_lt start
  have count : ring.count - 1 = queue.length := by
    rw [holds.count]
    rfl
  have stored := holds.stored 0 item rfl
  rw [first] at stored
  refine ⟨by rw [Circular.pop, stored]; rfl, count, ?_, fun _ => ?_, fun position found inside => ?_⟩
  · show queue.length ≤ (ring.slots.set ring.head none).length
    rw [List.length_set]
    omega
  · show (if ring.count - 1 = 0 then 0 else _) < (ring.slots.set ring.head none).length
    rw [List.length_set]
    split
    · exact List.length_pos_iff.mpr some
    · exact Nat.mod_lt _ (List.length_pos_iff.mpr some)
  · have early : position < queue.length := (List.getElem?_eq_some_iff.mp inside).1
    have next : ring.pop.2.place position = ring.place (position + 1) := by
      show ((if ring.count - 1 = 0 then 0 else (ring.head + 1) % ring.slots.length) + position) %
        (ring.slots.set ring.head none).length = (ring.head + (position + 1)) % ring.slots.length
      rw [if_neg (by omega), List.length_set, Nat.mod_add_mod, Nat.add_right_comm, Nat.add_assoc]
    have apart : ring.head ≠ ring.place (position + 1) := by
      intro same
      rw [← first] at same
      cases place_injective (by omega) (by omega) same
    rw [next]
    show (ring.slots.set ring.head none)[ring.place (position + 1)]? = _
    rw [List.getElem?_set_ne apart]
    exact holds.stored (position + 1) found inside

/-- A larger ring holds the same items. -/
theorem Holds.resize (holds : ring.Holds queue) {size : Nat} (room : queue.length ≤ size) :
    (ring.resize size).Holds queue := by
  have length : (ring.resize size).slots.length = size := by simp [Circular.resize]
  refine ⟨holds.count, ?_, fun some => ?_, fun position found inside => ?_⟩
  · rw [length]
    exact room
  · exact List.length_pos_iff.mpr some
  · have early : position < queue.length := (List.getElem?_eq_some_iff.mp inside).1
    have place : (ring.resize size).place position = position := by
      rw [Circular.place, length]
      show (0 + position) % size = position
      rw [Nat.zero_add, Nat.mod_eq_of_lt (Nat.lt_of_lt_of_le early room)]
    rw [place]
    show ((List.range size).map _)[position]? = _
    rw [List.getElem?_map, List.getElem?_range (Nat.lt_of_lt_of_le early room)]
    show some (if position < ring.count then _ else none) = _
    rw [if_pos (holds.count ▸ early), holds.stored position found inside]
    rfl

end Circular

end Library
