/-
The attributes of a message, one by one: which attribute is found after another one is written or removed.
-/

import Libbgp.Construction.Message
import Libbgp.Proof.Bytes

namespace Libbgp

open List

variable {type : PAttrType} {change : PAttr → PAttr} {attrs : List (Option PAttr)}

/-- The first attribute of a kind. -/
def firstOf (type : PAttrType) (attrs : List (Option PAttr)) : Option PAttr :=
  (attrs.filterMap id).find? fun attr => attr.type == type

/-- How many attributes are of a kind. -/
def countOf (type : PAttrType) (attrs : List (Option PAttr)) : Nat :=
  (attrs.filterMap id).countP fun attr => attr.type == type

/-- The attribute is written over the first one of its kind, or behind the others. -/
def putAttr (attrs : List (Option PAttr)) (attr : PAttr) : List (Option PAttr) :=
  if (firstOf attr.type attrs).isSome then changeFirst attr.type (fun _ => attr) attrs else attrs ++ [some attr]

section Lists

variable {type other : PAttrType} {change : PAttr → PAttr} {attrs rest : List (Option PAttr)} {attr held : PAttr}

@[simp] theorem firstOf_none_cons : firstOf type (none :: rest) = firstOf type rest := rfl

theorem firstOf_cons :
    firstOf type (some attr :: rest) = if attr.type = type then some attr else firstOf type rest := by
  show (attr :: rest.filterMap id).find? _ = _
  rw [find?_cons]
  by_cases same : attr.type = type
  · rw [if_pos same, beq_iff_eq.mpr same]
  · rw [if_neg same, beq_eq_false_iff_ne.mpr same]
    rfl

theorem type_of_firstOf (found : firstOf type attrs = some attr) : attr.type = type := by
  rw [firstOf] at found
  have matched := find?_some found
  exact beq_iff_eq.mp matched

theorem mem_of_firstOf (found : firstOf type attrs = some attr) : some attr ∈ attrs := by
  obtain ⟨slot, member, same⟩ := mem_filterMap.mp (mem_of_find?_eq_some found)
  exact (show slot = some attr from same) ▸ member

theorem firstOf_append : firstOf type (attrs ++ rest) = (firstOf type attrs).or (firstOf type rest) := by
  rw [firstOf, filterMap_append, find?_append]
  rfl

/-- The change is made to the attribute that a search finds. -/
theorem firstOf_changeFirst (kind : ∀ attr, attr.type = type → (change attr).type = type) :
    firstOf type (changeFirst type change attrs) = (firstOf type attrs).map change := by
  induction attrs with
  | nil => rfl
  | cons slot rest ih =>
    rcases slot with _ | attr
    · exact ih
    · rw [changeFirst, firstOf_cons]
      by_cases same : attr.type = type
      · rw [if_pos same, if_pos same, firstOf_cons, if_pos (kind attr same)]
        rfl
      · rw [if_neg same, if_neg same, firstOf_cons, if_neg same, ih]

theorem firstOf_changeFirst_other (kind : ∀ attr, attr.type = type → (change attr).type = type) (apart : other ≠ type) :
    firstOf other (changeFirst type change attrs) = firstOf other attrs := by
  induction attrs with
  | nil => rfl
  | cons slot rest ih =>
    rcases slot with _ | attr
    · exact ih
    · rw [changeFirst, firstOf_cons]
      by_cases same : attr.type = type
      · rw [if_pos same, firstOf_cons, if_neg (fun equal => apart (equal.symm.trans (kind attr same))),
          if_neg (fun equal => apart (equal.symm.trans same))]
      · rw [if_neg same, firstOf_cons, ih]

/-- What stands in a list after its first match was changed. -/
theorem mem_changeFirst (member : some attr ∈ changeFirst type change attrs) :
    some attr ∈ attrs ∨ ∃ old, some old ∈ attrs ∧ old.type = type ∧ attr = change old := by
  induction attrs with
  | nil => exact .inl member
  | cons slot rest ih =>
    have behind (inside : some attr ∈ changeFirst type change rest) :
        some attr ∈ slot :: rest ∨ ∃ old, some old ∈ slot :: rest ∧ old.type = type ∧ attr = change old := by
      rcases ih inside with old | ⟨old, stored, kind, same⟩
      · exact .inl (mem_cons_of_mem _ old)
      · exact .inr ⟨old, mem_cons_of_mem _ stored, kind, same⟩
    rcases slot with _ | first
    · rcases mem_cons.mp member with absent | inside
      · cases absent
      · exact behind inside
    · rw [changeFirst] at member
      split at member
      case isTrue kind =>
        rcases mem_cons.mp member with same | inside
        · exact .inr ⟨first, mem_cons_self .., kind, Option.some.inj same⟩
        · exact .inl (mem_cons_of_mem _ inside)
      case isFalse =>
        rcases mem_cons.mp member with same | inside
        · exact .inl (same ▸ mem_cons_self ..)
        · exact behind inside

theorem firstOf_removeAttrType_other (apart : other ≠ type) :
    firstOf other (removeAttrType type attrs) = firstOf other attrs := by
  induction attrs with
  | nil => rfl
  | cons slot rest ih =>
    rcases slot with _ | attr
    · exact ih
    · rw [removeAttrType, eraseP_cons]
      show firstOf other (bif attr.type == type then rest else some attr :: removeAttrType type rest) = _
      by_cases same : attr.type = type
      · rw [beq_iff_eq.mpr same, firstOf_cons, if_neg (fun equal => apart (equal.symm.trans same))]
        rfl
      · rw [beq_eq_false_iff_ne.mpr same, firstOf_cons, ← ih]
        exact firstOf_cons

/-- A single attribute is gone once it is removed. -/
theorem firstOf_removeAttrType (single : countOf type attrs ≤ 1) : firstOf type (removeAttrType type attrs) = none := by
  induction attrs with
  | nil => rfl
  | cons slot rest ih =>
    rcases slot with _ | attr
    · exact ih single
    · rw [removeAttrType, eraseP_cons]
      show firstOf type (bif attr.type == type then rest else some attr :: removeAttrType type rest) = _
      have total : countOf type (some attr :: rest) = countOf type rest + if attr.type == type then 1 else 0 :=
        countP_cons
      rw [total] at single
      by_cases same : attr.type = type
      · rw [beq_iff_eq.mpr same] at single ⊢
        have none : countOf type rest = 0 := Nat.le_zero.mp (Nat.le_of_succ_le_succ single)
        exact find?_eq_none.mpr (countP_eq_zero.mp none)
      · rw [beq_eq_false_iff_ne.mpr same] at single ⊢
        exact firstOf_cons.trans ((if_neg same).trans (ih single))

theorem removeAttrType_absent (absent : firstOf type attrs = none) : removeAttrType type attrs = attrs := by
  refine eraseP_of_forall_not fun slot member found => ?_
  rcases slot with _ | attr
  · cases found
  · exact find?_eq_none.mp absent attr (mem_filterMap.mpr ⟨some attr, member, rfl⟩) found

theorem countOf_removeAttrType : countOf other (removeAttrType type attrs) ≤ countOf other attrs :=
  (List.Sublist.filterMap id (eraseP_sublist ..)).countP_le

theorem mem_removeAttrType (member : some attr ∈ removeAttrType type attrs) : some attr ∈ attrs :=
  mem_of_mem_eraseP member

/-- An attribute that was put is found. -/
theorem firstOf_putAttr (kind : attr.type = type) : firstOf type (putAttr attrs attr) = some attr := by
  subst kind
  rw [putAttr]
  split
  case isTrue found =>
    obtain ⟨old, same⟩ := Option.isSome_iff_exists.mp found
    rw [firstOf_changeFirst fun _ _ => rfl, same]
    rfl
  case isFalse absent =>
    rw [firstOf_append, Option.not_isSome_iff_eq_none.mp absent, firstOf_cons, if_pos rfl]
    rfl

theorem firstOf_putAttr_other (type : PAttrType) (kind : attr.type = type) (apart : other ≠ type) :
    firstOf other (putAttr attrs attr) = firstOf other attrs := by
  subst kind
  rw [putAttr]
  split
  case isTrue => exact firstOf_changeFirst_other (fun _ _ => rfl) apart
  case isFalse =>
    rw [firstOf_append, firstOf_cons, if_neg apart.symm]
    exact Option.or_none

theorem mem_putAttr (member : some held ∈ putAttr attrs attr) : some held ∈ attrs ∨ held = attr := by
  rw [putAttr] at member
  split at member
  case isTrue =>
    rcases mem_changeFirst member with old | ⟨old, -, -, same⟩
    · exact .inl old
    · exact .inr same
  case isFalse =>
    rcases mem_append.mp member with old | new
    · exact .inl old
    · exact .inr (Option.some.inj (mem_singleton.mp new))

theorem countOf_changeFirst (kind : ∀ attr, attr.type = other → (change attr).type = other) :
    countOf type (changeFirst other change attrs) = countOf type attrs := by
  induction attrs with
  | nil => rfl
  | cons slot rest ih =>
    rcases slot with _ | attr
    · exact ih
    · rw [changeFirst]
      split
      case isTrue same =>
        have equal : (change attr).type = attr.type := (kind attr same).trans same.symm
        show countP _ (change attr :: _) = countP _ (attr :: _)
        rw [countP_cons, countP_cons, equal]
      case isFalse =>
        show countP _ (attr :: _) = countP _ (attr :: _)
        rw [countP_cons, countP_cons]
        exact congrArg (· + _) ih

/-- Putting an attribute keeps its kind single. -/
theorem countOf_putAttr (single : countOf type attrs ≤ 1) : countOf type (putAttr attrs attr) ≤ 1 := by
  rw [putAttr]
  split
  case isTrue =>
    rw [countOf_changeFirst fun _ _ => rfl]
    exact single
  case isFalse absent =>
    rw [countOf, filterMap_append, countP_append]
    show countOf type attrs + countP _ [attr] ≤ 1
    rw [countP_singleton]
    split
    case isTrue same =>
      have none : countOf type attrs = 0 := by
        refine countP_eq_zero.mpr fun held member found => absent ?_
        rw [beq_iff_eq] at same found
        exact find?_isSome.mpr ⟨held, member, by rw [found, same]; exact beq_self_eq_true _⟩
      omega
    case isFalse => exact single

end Lists

theorem firstOf_map (keeps : ∀ attr, (change attr).type = attr.type) (attrs : List (Option PAttr)) :
    firstOf type (attrs.map (Option.map change)) = (firstOf type attrs).map change := by
  induction attrs with
  | nil => rfl
  | cons slot rest ih =>
    rcases slot with _ | attr
    · exact ih
    · rw [map_cons, Option.map_some, firstOf_cons, firstOf_cons, keeps, ih]
      split <;> rfl

theorem countOf_map (keeps : ∀ attr, (change attr).type = attr.type) (attrs : List (Option PAttr)) :
    countOf type (attrs.map (Option.map change)) = countOf type attrs := by
  have same : (attrs.map (Option.map change)).filterMap id = (attrs.filterMap id).map change := by
    rw [filterMap_map, map_filterMap]
    rfl
  rw [countOf, same, countP_map, countOf]
  refine countP_congr fun attr _ => ?_
  rw [Function.comp_apply, keeps]

/-- Some attributes of the given kinds were written or removed, and nothing else was done. -/
structure Edited (kinds : List PAttrType) (good : PAttr → Prop) (before after : List (Option PAttr)) : Prop where
  others : ∀ type, type ∉ kinds → firstOf type after = firstOf type before
  counts : ∀ type, countOf type before ≤ 1 → countOf type after ≤ 1
  members : ∀ attr, some attr ∈ after → some attr ∈ before ∨ attr.type ∈ kinds ∧ good attr

namespace Edited

variable {kinds : List PAttrType} {good : PAttr → Prop} {before middle after : List (Option PAttr)} {type : PAttrType}
  {attr : PAttr} {change : PAttr → PAttr}

theorem refl : Edited kinds good before before := ⟨fun _ _ => rfl, fun _ few => few, fun _ member => .inl member⟩

theorem trans (first : Edited kinds good before middle) (second : Edited kinds good middle after) :
    Edited kinds good before after := by
  refine ⟨fun type other => ?_, fun type few => second.counts type (first.counts type few), fun attr member => ?_⟩
  · rw [second.others type other, first.others type other]
  · rcases second.members attr member with old | new
    · exact first.members attr old
    · exact .inr new

theorem put (kind : attr.type ∈ kinds) (passes : good attr) : Edited kinds good before (putAttr before attr) := by
  refine ⟨fun type other => ?_, fun type few => countOf_putAttr few, fun held member => ?_⟩
  · exact firstOf_putAttr_other attr.type rfl fun same => other (same ▸ kind)
  · rcases mem_putAttr member with old | rfl
    · exact .inl old
    · exact .inr ⟨kind, passes⟩

theorem changeFirst (kind : type ∈ kinds) (keeps : ∀ attr, attr.type = type → (change attr).type = type)
    (passes : ∀ attr, some attr ∈ before → attr.type = type → good (change attr)) :
    Edited kinds good before (Libbgp.changeFirst type change before) := by
  refine ⟨fun other absent => ?_, fun other few => ?_, fun held member => ?_⟩
  · exact firstOf_changeFirst_other keeps fun same => absent (same ▸ kind)
  · rw [countOf_changeFirst keeps]
    exact few
  · rcases mem_changeFirst member with old | ⟨old, stored, same, rfl⟩
    · exact .inl old
    · exact .inr ⟨keeps old same ▸ kind, passes old stored same⟩

theorem map (keeps : ∀ attr, (change attr).type = attr.type) (only : ∀ attr, attr.type ∉ kinds → change attr = attr)
    (passes : ∀ attr, some attr ∈ before → attr.type ∈ kinds → good (change attr)) :
    Edited kinds good before (before.map (Option.map change)) := by
  refine ⟨fun type absent => ?_, fun type few => ?_, fun held member => ?_⟩
  · rw [firstOf_map keeps]
    rcases found : firstOf type before with _ | attr
    · rfl
    · exact congrArg some (only attr (type_of_firstOf found ▸ absent))
  · rw [countOf_map keeps]
    exact few
  · obtain ⟨slot, stored, same⟩ := mem_map.mp member
    obtain ⟨old, rfl, rfl⟩ := Option.map_eq_some_iff.mp same
    by_cases kind : old.type ∈ kinds
    · exact .inr ⟨keeps old ▸ kind, passes old stored kind⟩
    · rw [only old kind]
      exact .inl stored

theorem remove (kind : type ∈ kinds) : Edited kinds good before (removeAttrType type before) :=
  ⟨fun _ absent => firstOf_removeAttrType_other fun same => absent (same ▸ kind),
    fun _ few => Nat.le_trans countOf_removeAttrType few, fun _ member => .inl (mem_removeAttrType member)⟩

/-- What all attributes had, and the new ones have, all have afterwards. -/
theorem all (edited : Edited kinds good before after) (passes : ∀ attr, some attr ∈ before → good attr) :
    ∀ attr, some attr ∈ after → good attr := by
  intro attr member
  rcases edited.members attr member with old | ⟨-, new⟩
  · exact passes attr old
  · exact new

end Edited

theorem countOf_cons {first : PAttr} {rest : List (Option PAttr)} :
    countOf type (some first :: rest) = countOf type rest + if first.type == type then 1 else 0 := countP_cons

/-- The only attribute of its kind is the first one. -/
theorem firstOf_of_mem {attr : PAttr} (single : countOf type attrs ≤ 1) (member : some attr ∈ attrs)
    (kind : attr.type = type) : firstOf type attrs = some attr := by
  induction attrs with
  | nil => cases member
  | cons slot rest ih =>
    rcases slot with _ | first
    · rcases mem_cons.mp member with absent | inside
      · cases absent
      · exact ih single inside
    · rw [countOf_cons] at single
      rw [firstOf_cons]
      rcases mem_cons.mp member with same | inside
      · obtain rfl := Option.some.inj same
        exact if_pos kind
      · have counted : 0 < countOf type rest :=
          countP_pos_iff.mpr ⟨attr, mem_filterMap.mpr ⟨some attr, inside, rfl⟩, beq_iff_eq.mpr kind⟩
        have other : ¬ first.type = type := by
          intro same
          rw [if_pos (beq_iff_eq.mpr same)] at single
          omega
        rw [if_neg other]
        exact ih (Nat.le_trans (Nat.le_add_right _ _) single) inside

/-- What only one attribute can give is given by the first one of its kind. -/
theorem flatMap_firstOf {B : Type} {gives : PAttr → List B} (single : countOf type attrs ≤ 1)
    (only : ∀ attr, attr.type ≠ type → gives attr = []) :
    (attrs.filterMap id).flatMap gives = ((firstOf type attrs).map gives).getD [] := by
  induction attrs with
  | nil => rfl
  | cons slot rest ih =>
    rcases slot with _ | first
    · exact ih single
    · rw [countOf_cons] at single
      show gives first ++ (rest.filterMap id).flatMap gives = _
      rw [firstOf_cons]
      by_cases kind : first.type = type
      · have alone : countOf type rest = 0 := by
          rw [if_pos (beq_iff_eq.mpr kind)] at single
          omega
        have silent : (rest.filterMap id).flatMap gives = [] := by
          refine flatMap_eq_nil_iff.mpr fun attr member => only attr fun same => ?_
          exact countP_eq_zero.mp alone attr member (beq_iff_eq.mpr same)
        rw [if_pos kind, silent, append_nil]
        rfl
      · rw [if_neg kind, only first kind]
        exact ih (Nat.le_trans (Nat.le_add_right _ _) single)

end Libbgp
