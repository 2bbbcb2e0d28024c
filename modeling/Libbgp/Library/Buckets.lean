import Libbgp.Library.Keyed

namespace Library

open List

variable {E : Type}
  {test : E → Bool} {items : List E} {item : E} {buckets : List (List E)} {position : Nat} {chain : List E}
  {index : E → Nat}

/-- Apply a function to the first element that satisfies the test. -/
def updateFirst (test : E → Bool) (change : E → E) : List E → List E
  | [] => []
  | item :: rest => if test item then change item :: rest else item :: updateFirst test change rest

/-- The first match is split off without losing the others. -/
theorem perm_cons_eraseP (found : items.find? test = some item) : items.Perm (item :: items.eraseP test) := by
  induction items with
  | nil => simp at found
  | cons head rest ih =>
    by_cases hit : test head
    · have same : head = item := by simpa [hit] using found
      subst same
      simp [hit]
    · have later : rest.find? test = some item := by simpa [hit] using found
      rw [eraseP_cons_of_neg hit]
      exact ((ih later).cons head).trans (List.Perm.swap item head _)

/-- An update changes one item and keeps the others. -/
theorem updateFirst_perm {change : E → E} (found : items.find? test = some item) :
    (updateFirst test change items).Perm (change item :: items.eraseP test) := by
  induction items with
  | nil => simp at found
  | cons head rest ih =>
    by_cases hit : test head
    · have same : head = item := by simpa [hit] using found
      subst same
      simp [updateFirst, hit]
    · have later : rest.find? test = some item := by simpa [hit] using found
      simp only [updateFirst, hit, Bool.false_eq_true, if_false, not_false_iff, eraseP_cons_of_neg]
      exact ((ih later).cons head).trans (List.Perm.swap (change item) head _)

/-- Every element of a bucket belongs at that bucket's index. -/
def Placed (index : E → Nat) (buckets : List (List E)) : Prop :=
  ∀ position chain, buckets[position]? = some chain → ∀ item ∈ chain, index item = position

/-- One bucket can be changed without touching the rest of the table. -/
theorem flatten_modify (present : buckets[position]? = some chain) :
    ∃ rest, buckets.flatten.Perm (chain ++ rest) ∧
      ∀ change : List E → List E, (buckets.modify position change).flatten.Perm (change chain ++ rest) := by
  induction buckets generalizing position with
  | nil => simp at present
  | cons first later ih =>
    cases position with
    | zero =>
      have same : first = chain := by simpa using present
      subst same
      exact ⟨later.flatten, by simp, fun change => by simp⟩
    | succ position =>
      obtain ⟨rest, whole, changed⟩ := ih (by simpa using present)
      refine ⟨first ++ rest, ?_, fun change => ?_⟩
      · calc (first :: later).flatten = first ++ later.flatten := by simp
          _ |>.Perm (first ++ (chain ++ rest)) := whole.append_left first
          _ |>.Perm (chain ++ (first ++ rest)) := perm_append_comm_assoc first chain rest
      · calc ((first :: later).modify (position + 1) change).flatten =
            first ++ (later.modify position change).flatten := by simp
          _ |>.Perm (first ++ (change chain ++ rest)) := (changed change).append_left first
          _ |>.Perm (change chain ++ (first ++ rest)) :=
            perm_append_comm_assoc first (change chain) rest

theorem Placed.modify (placed : Placed index buckets) (position : Nat) (change : List E → List E)
    (stays : ∀ chain, buckets[position]? = some chain → ∀ item ∈ change chain, index item = position) :
    Placed index (buckets.modify position change) := by
  intro place chain present item member
  rw [getElem?_modify] at present
  by_cases same : position = place
  · subst same
    simp only [if_true, Option.map_eq_map, Option.map_eq_some_iff] at present
    obtain ⟨before, found, rfl⟩ := present
    exact stays before found item member
  · simp only [same, if_false, Option.map_eq_map, Option.map_id'] at present
    exact placed place chain present item member

/-- An element is found in the bucket that its index names. -/
theorem Placed.mem_chain (placed : Placed index buckets) (member : item ∈ buckets.flatten) :
    item ∈ buckets.getD (index item) [] := by
  obtain ⟨chain, chainIn, itemIn⟩ := mem_flatten.mp member
  obtain ⟨position, inside, reached⟩ := getElem_of_mem chainIn
  have present : buckets[position]? = some chain := by
    rw [getElem?_eq_getElem inside, reached]
  rw [placed position chain present item itemIn, getD_eq_getElem?_getD, present]
  exact itemIn

theorem mem_flatten_of_mem_getD (member : item ∈ buckets.getD position []) : item ∈ buckets.flatten := by
  rw [getD_eq_getElem?_getD] at member
  rcases present : buckets[position]? with _ | chain
  · simp [present] at member
  · rw [present] at member
    exact mem_flatten.mpr ⟨chain, mem_of_getElem? present, member⟩

/-- The elements outside of one bucket belong elsewhere. -/
theorem Placed.split (placed : Placed index buckets) (present : buckets[position]? = some chain) :
    ∃ rest, buckets.flatten.Perm (chain ++ rest) ∧ ∀ item ∈ rest, index item ≠ position := by
  obtain ⟨rest, whole, changed⟩ := flatten_modify present
  refine ⟨rest, whole, fun item member here => ?_⟩
  -- Without its chain the table holds only the rest, and the bucket at this position is empty.
  have emptied : Placed index (buckets.modify position fun _ => []) :=
    placed.modify position _ (by simp)
  have inside : item ∈ (buckets.modify position fun _ => []).flatten := (changed fun _ => []).mem_iff.mpr member
  have found := emptied.mem_chain inside
  rw [here, getD_eq_getElem?_getD, getElem?_modify, present] at found
  simp at found

/-- Put one element at the front of its bucket. -/
def pushFront (index : E → Nat) (buckets : List (List E)) (item : E) : List (List E) :=
  buckets.modify (index item) (item :: ·)

@[simp] theorem length_pushFront (index : E → Nat) (buckets : List (List E)) (item : E) :
    (pushFront index buckets item).length = buckets.length := by
  simp [pushFront]

theorem Placed.pushFront (placed : Placed index buckets) (item : E) :
    Placed index (pushFront index buckets item) := by
  apply placed.modify
  intro chain present held member
  rcases mem_cons.mp member with rfl | old
  · rfl
  · exact placed _ chain present held old

theorem pushFront_perm (index : E → Nat) (inside : index item < buckets.length) :
    (pushFront index buckets item).flatten.Perm (item :: buckets.flatten) := by
  obtain ⟨rest, whole, changed⟩ := flatten_modify (getElem?_eq_getElem inside)
  calc (pushFront index buckets item).flatten.Perm (item :: buckets[index item] ++ rest) := changed _
    _ |>.Perm (item :: buckets.flatten) := whole.symm.cons item

/-- Rebuild a table of the given size from a list of elements. -/
def rehash (index : E → Nat) (size : Nat) (items : List E) : List (List E) :=
  items.foldl (pushFront index) (replicate size [])

/-- Placing items one by one keeps them all. -/
theorem foldl_pushFront (index : E → Nat) (items : List E) (buckets : List (List E))
    (placed : Placed index buckets) (inside : ∀ item ∈ items, index item < buckets.length) :
    (items.foldl (pushFront index) buckets).length = buckets.length ∧
      Placed index (items.foldl (pushFront index) buckets) ∧
      (items.foldl (pushFront index) buckets).flatten.Perm (items ++ buckets.flatten) := by
  induction items generalizing buckets with
  | nil => exact ⟨rfl, placed, List.Perm.refl _⟩
  | cons item rest ih =>
    have pushed := pushFront_perm index (inside item (by simp))
    obtain ⟨size, stillPlaced, contents⟩ := ih (pushFront index buckets item) (placed.pushFront item)
      (by intro other member; simpa using inside other (by simp [member]))
    refine ⟨by simpa using size, stillPlaced, ?_⟩
    calc (rest.foldl (pushFront index) (pushFront index buckets item)).flatten.Perm
          (rest ++ (pushFront index buckets item).flatten) := contents
      _ |>.Perm (rest ++ item :: buckets.flatten) := pushed.append_left rest
      _ |>.Perm (item :: (rest ++ buckets.flatten)) := perm_middle

/-- A rehashed table holds the same items, each in its bucket. -/
theorem rehash_spec (index : E → Nat) (size : Nat) (items : List E) (inside : ∀ item ∈ items, index item < size) :
    (rehash index size items).length = size ∧ Placed index (rehash index size items) ∧
      (rehash index size items).flatten.Perm items := by
  have empty : Placed index (replicate size ([] : List E)) := by
    intro position chain present item member
    have bare : chain = [] := (mem_replicate.mp (mem_of_getElem? present)).2
    simp [bare] at member
  obtain ⟨length, placed, contents⟩ := foldl_pushFront index items (replicate size []) empty
    (by simpa using inside)
  exact ⟨by simpa [rehash] using length, placed, by simpa [rehash] using contents⟩

end Library
