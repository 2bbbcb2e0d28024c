import Mathlib.Data.Set.Insert
import Mathlib.Data.List.Nodup
import Mathlib.Tactic

namespace Library

variable {E K : Type} [DecidableEq K]

/-- One list for each class that occurs: together they list a set exactly, class by class. -/
structure Partitions (classOf : E → K) (lists : K → Option (List E)) (members : Set E) : Prop where
  nonempty : ∀ name items, lists name = some items → items ≠ []
  nodup : ∀ name items, lists name = some items → items.Nodup
  exact : ∀ name items, lists name = some items →
    ∀ item, item ∈ items ↔ item ∈ members ∧ classOf item = name
  covered : ∀ item ∈ members, lists (classOf item) ≠ none

namespace Partitions

variable {classOf : E → K} {lists after : K → Option (List E)} {members : Set E} {item : E}

omit [DecidableEq K] in
theorem empty (nothing : ∀ name, lists name = none) : Partitions classOf lists ∅ where
  nonempty name items found := by simp [nothing] at found
  nodup name items found := by simp [nothing] at found
  exact name items found := by simp [nothing] at found
  covered item absent := absurd absent (Set.notMem_empty item)

section

variable (partitions : Partitions classOf lists members)

include partitions

omit [DecidableEq K] in
/-- The class of a member has a list, and the member is in it. -/
theorem mem_list (member : item ∈ members) : ∃ items, lists (classOf item) = some items ∧ item ∈ items := by
  obtain ⟨items, found⟩ := Option.ne_none_iff_exists'.mp (partitions.covered item member)
  exact ⟨items, found, (partitions.exact _ _ found item).mpr ⟨member, rfl⟩⟩

omit [DecidableEq K] in
/-- The missing list of an absent class is empty. -/
theorem mem_getD (name : K) (other : E) : other ∈ (lists name).getD [] ↔ other ∈ members ∧ classOf other = name := by
  rcases found : lists name with _ | items
  · simp only [Option.getD_none, List.not_mem_nil, false_iff]
    rintro ⟨member, rfl⟩
    exact partitions.covered other member found
  · exact partitions.exact name items found other

omit [DecidableEq K] in
theorem nodup_getD (name : K) : ((lists name).getD []).Nodup := by
  rcases found : lists name with _ | items
  · exact List.nodup_nil
  · exact partitions.nodup name items found

/-- A new member is appended to the list of its class, which may be new as well. -/
theorem extend (fresh : item ∉ members) (appended : ∀ name, after name =
      if name = classOf item then some ((lists name).getD [] ++ [item]) else lists name) :
    Partitions classOf after (insert item members) := by
  refine ⟨?_, ?_, ?_, ?_⟩
  · intro name items found
    rw [appended] at found
    split at found
    · cases found
      simp
    · exact partitions.nonempty name items found
  · intro name items found
    rw [appended] at found
    split at found
    · cases found
      rw [List.nodup_append]
      refine ⟨partitions.nodup_getD name, List.nodup_singleton item, fun held member other only => ?_⟩
      rw [List.mem_singleton] at only
      rintro rfl
      subst only
      exact fresh ((partitions.mem_getD name held).mp member).1
    · exact partitions.nodup name items found
  · intro name items found other
    rw [appended] at found
    rw [Set.mem_insert_iff]
    split at found
    · next here =>
        cases found
        rw [List.mem_append, List.mem_singleton, partitions.mem_getD]
        constructor
        · rintro (⟨old, same⟩ | rfl)
          · exact ⟨.inr old, same⟩
          · exact ⟨.inl rfl, here.symm⟩
        · rintro ⟨rfl | old, same⟩
          · exact .inr rfl
          · exact .inl ⟨old, same⟩
    · next elsewhere =>
        rw [partitions.exact name items found]
        constructor
        · rintro ⟨old, same⟩
          exact ⟨.inr old, same⟩
        · rintro ⟨rfl | old, same⟩
          · exact absurd same.symm elsewhere
          · exact ⟨old, same⟩
  · intro other member
    rw [appended]
    split
    · simp
    · next elsewhere =>
        rcases Set.mem_insert_iff.mp member with rfl | old
        · exact absurd rfl elsewhere
        · exact partitions.covered other old

/-- A member leaves the list of its class; the class goes with its last member. -/
theorem shrink {items remaining : List E} (found : lists (classOf item) = some items) (distinct : remaining.Nodup)
    (others : ∀ other, other ∈ remaining ↔ other ∈ items ∧ other ≠ item) (removed : ∀ name, after name =
      if name = classOf item then (if remaining = [] then none else some remaining) else lists name) :
    Partitions classOf after (members \ {item}) := by
  refine ⟨?_, ?_, ?_, ?_⟩
  · intro name kept located
    rw [removed] at located
    split_ifs at located with here empty
    · cases located
      exact empty
    · exact partitions.nonempty name kept located
  · intro name kept located
    rw [removed] at located
    split_ifs at located with here empty
    · cases located
      exact distinct
    · exact partitions.nodup name kept located
  · intro name kept located other
    rw [removed] at located
    rw [Set.mem_sdiff, Set.mem_singleton_iff]
    split_ifs at located with here empty
    · cases located
      rw [others, partitions.exact _ _ found, here]
      tauto
    · rw [partitions.exact name kept located]
      constructor
      · rintro ⟨old, same⟩
        refine ⟨⟨old, ?_⟩, same⟩
        rintro rfl
        exact here same.symm
      · rintro ⟨⟨old, -⟩, same⟩
        exact ⟨old, same⟩
  · rintro other ⟨old, different⟩
    rw [removed]
    split_ifs with here empty
    · have inside := (partitions.exact _ _ found other).mpr ⟨old, here⟩
      have stays := (others other).mpr ⟨inside, different⟩
      simp [empty] at stays
    · simp
    · exact partitions.covered other old

/-- A whole class leaves with all its members. -/
theorem drop {name : K} (removed : ∀ other, after other = if other = name then none else lists other) :
    Partitions classOf after {item | item ∈ members ∧ classOf item ≠ name} := by
  refine ⟨?_, ?_, ?_, ?_⟩
  · intro other items located
    rw [removed] at located
    split at located
    · cases located
    · exact partitions.nonempty other items located
  · intro other items located
    rw [removed] at located
    split at located
    · cases located
    · exact partitions.nodup other items located
  · intro other items located held
    rw [removed] at located
    split at located
    · cases located
    · next elsewhere =>
        rw [partitions.exact other items located, Set.mem_ofPred_eq]
        constructor
        · rintro ⟨old, rfl⟩
          exact ⟨⟨old, elsewhere⟩, rfl⟩
        · rintro ⟨⟨old, -⟩, same⟩
          exact ⟨old, same⟩
  · rintro held ⟨old, different⟩
    rw [removed, if_neg different]
    exact partitions.covered held old

end

end Partitions

end Library
