import Mathlib.Data.List.Perm.Basic
import Mathlib.Data.List.Nodup
import Mathlib.Tactic

namespace Library

/-- A list has at most one element for each key. -/
def UniqueKeys {E K : Type} (key : E → K) (items : List E) : Prop :=
  (items.map key).Nodup

namespace UniqueKeys

variable {E K : Type} {key : E → K} {items other : List E} {item : E} {wanted : K}

theorem perm (unique : UniqueKeys key items) (same : items.Perm other) : UniqueKeys key other :=
  (same.map key).nodup_iff.mp unique

theorem cons_iff : UniqueKeys key (item :: items) ↔ (∀ held ∈ items, key held ≠ key item) ∧ UniqueKeys key items := by
  simp [UniqueKeys]

theorem nodup (unique : UniqueKeys key items) : items.Nodup :=
  List.Nodup.of_map key unique

/-- Equal keys belong to the same element. -/
theorem eq_of_key {first second : E} (unique : UniqueKeys key items) (firstIn : first ∈ items)
    (secondIn : second ∈ items) (same : key first = key second) : first = second :=
  List.inj_on_of_nodup_map unique firstIn secondIn same

/-- A search by key returns the element that has this key, whatever its place in the list. -/
theorem find_eq_some_iff [DecidableEq K] (unique : UniqueKeys key items) :
    items.find? (fun held => key held == wanted) = some item ↔ item ∈ items ∧ key item = wanted := by
  constructor
  · intro found
    exact ⟨List.mem_of_find?_eq_some found, by simpa using List.find?_some found⟩
  · rintro ⟨member, same⟩
    rcases search : items.find? (fun held => key held == wanted) with _ | found
    · have missing := List.find?_eq_none.mp search item member
      simp [same] at missing
    · have foundKey : key found = wanted := by simpa using List.find?_some search
      rw [unique.eq_of_key (List.mem_of_find?_eq_some search) member (foundKey.trans same.symm)]

/-- A search that only one key can answer looks at the element with this key. -/
theorem findSome_of_key [DecidableEq K] {V : Type} {answer : E → Option V} (unique : UniqueKeys key items)
    (only : ∀ item ∈ items, answer item ≠ none → key item = wanted) :
    items.findSome? answer = (items.find? fun held => key held == wanted).bind answer := by
  induction items with
  | nil => rfl
  | cons item rest ih =>
    obtain ⟨fresh, later⟩ := cons_iff.mp unique
    have tail := ih later fun held member => only held (List.mem_cons_of_mem _ member)
    rw [List.findSome?_cons, List.find?_cons]
    by_cases here : key item = wanted
    · have silent : rest.findSome? answer = none := by
        refine List.findSome?_eq_none_iff.mpr fun held member => ?_
        by_contra answers
        exact fresh held member ((only held (List.mem_cons_of_mem _ member) answers).trans here.symm)
      simp only [here, beq_self_eq_true, Option.bind_some, silent]
      cases answer item with
      | none => rfl
      | some value => rfl
    · have mute : answer item = none := by
        by_contra answers
        exact here (only item List.mem_cons_self answers)
      simp only [mute, tail, beq_eq_false_iff_ne.mpr here]

end UniqueKeys

/-- Overwrite one position with the last element and shorten the list. -/
def swapRemove {E : Type} (items : List E) (position : Nat) : List E :=
  match items.getLast? with
  | none => []
  | some last => (items.set position last).dropLast

section SwapRemove

variable {E : Type}

theorem swapRemove_concat (init : List E) (last : E) (position : Nat) :
    swapRemove (init ++ [last]) position = ((init ++ [last]).set position last).dropLast := by
  simp [swapRemove]

/-- Removal by overwriting with the last element keeps every other element. -/
theorem perm_cons_swapRemove (items : List E) (position : Nat) (item : E)
    (present : items[position]? = some item) : items.Perm (item :: swapRemove items position) := by
  rcases List.eq_nil_or_concat items with rfl | ⟨init, last, shape⟩
  · simp at present
  · rw [List.concat_eq_append] at shape
    subst shape
    rw [swapRemove_concat]
    obtain ⟨inside, reached⟩ := List.getElem?_eq_some_iff.mp present
    by_cases early : position < init.length
    · rw [List.set_append_left _ _ early, List.dropLast_concat]
      have here : init[position] = item := by
        rw [← reached, List.getElem_append_left early]
      have moved := (List.set_perm_cons_eraseIdx early last).symm.cons item
      have split := List.getElem_cons_eraseIdx_perm early
      rw [here] at split
      calc (init ++ [last]).Perm (last :: init) := List.perm_append_singleton last init
        _ |>.Perm (last :: item :: init.eraseIdx position) := split.symm.cons last
        _ |>.Perm (item :: last :: init.eraseIdx position) := List.Perm.swap item last _
        _ |>.Perm (item :: init.set position last) := moved
    · have final : position = init.length := by
        have : position < (init ++ [last]).length := inside
        simp only [List.length_append, List.length_singleton] at this
        omega
      subst final
      have here : last = item := by simpa using reached
      subst here
      simp

end SwapRemove

end Library
