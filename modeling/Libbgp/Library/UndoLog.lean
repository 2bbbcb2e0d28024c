import Mathlib.Logic.Function.Basic
import Mathlib.Tactic

namespace Library

open List Function

/-- One recorded insertion: the key, the mark of the inserted value, what it replaced, and whether an
undo has to bring that back. -/
structure UndoEntry (K V I : Type) where
  key : K
  mark : I
  restore : Bool
  replaced : Option V

namespace UndoLog

variable {K V I : Type} [DecidableEq K] (markOf : V → I)

/-- Take an inserted value out again if it is still in its place. -/
def removeStep [DecidableEq I] (entry : UndoEntry K V I) (map : K → Option V) : K → Option V :=
  if (map entry.key).any fun value => markOf value == entry.mark then update map entry.key none
  else map

/-- Put a saved value back into a free place. -/
def putBack (key : K) (saved : Option V) (map : K → Option V) : K → Option V :=
  if (map key).isNone then update map key saved else map

/-- The first pass runs over the insertions backwards. -/
def removeInsertions [DecidableEq I] (log : List (UndoEntry K V I)) (map : K → Option V) : K → Option V :=
  log.foldr (removeStep markOf) map

/-- The second pass runs over the insertions forwards. -/
def restoreReplaced (log : List (UndoEntry K V I)) (map : K → Option V) : K → Option V :=
  log.foldl (fun map entry => if entry.restore then putBack entry.key entry.replaced map else map) map

/-- The third pass runs over the withdrawals. -/
def restoreWithdrawn (log : List (K × V)) (map : K → Option V) : K → Option V :=
  log.foldl (fun map entry => putBack entry.1 (some entry.2) map) map

/-- A map after a number of recorded withdrawals. -/
inductive Withdrawn (base : K → Option V) : (K → Option V) → List (K × V) → Prop
  | start : Withdrawn base base []
  | withdraw {map : K → Option V} {log : List (K × V)} (done : Withdrawn base map log) (key : K) (value : V)
      (held : map key = some value) : Withdrawn base (update map key none) (log ++ [(key, value)])

/-- A map after a number of recorded insertions. The first insertion under a key restores what it
replaces; one that replaces an insertion of the same log does not. -/
inductive Inserted (base : K → Option V) : (K → Option V) → List (UndoEntry K V I) → Prop
  | start : Inserted base base []
  | insert {map : K → Option V} {log : List (UndoEntry K V I)} (done : Inserted base map log) (key : K)
      (value : V) (restore : Bool) (first : (∀ entry ∈ log, entry.key ≠ key) → restore = (map key).isSome)
      (again : ∀ entry ∈ log, entry.key = key → ∀ old, map key = some old → markOf old = entry.mark → restore = false) :
      Inserted base (update map key (some value)) (log ++ [⟨key, markOf value, restore, map key⟩])

variable {markOf} {base middle map : K → Option V} {key other : K} {log : List (UndoEntry K V I)}

@[simp] theorem putBack_self (key : K) (saved : Option V) (map : K → Option V) :
    putBack key saved map key = if (map key).isNone then saved else map key := by
  unfold putBack
  split <;> simp

theorem putBack_of_ne (different : other ≠ key) (saved : Option V) (map : K → Option V) :
    putBack key saved map other = map other := by
  unfold putBack
  split
  · exact update_of_ne different _ _
  · rfl

theorem putBack_update (different : key ≠ other) (saved value : Option V) (map : K → Option V) :
    putBack key saved (update map other value) = update (putBack key saved map) other value := by
  unfold putBack
  rw [update_of_ne different]
  split
  · exact (update_comm different _ _ _).symm
  · rfl

/-- Withdrawn keys are free. -/
theorem Withdrawn.free {log : List (K × V)} (done : Withdrawn base map log) : ∀ entry ∈ log, map entry.1 = none := by
  induction done with
  | start =>
    intro _ absent
    cases absent
  | withdraw done key value held ih =>
    intro entry member
    rcases mem_append.mp member with old | new
    · by_cases same : entry.1 = key
      · rw [same, update_self]
      · rw [update_of_ne same]
        exact ih entry old
    · rw [mem_singleton.mp new, update_self]

/-- Putting values back does not look at a key that the log does not name. -/
theorem restoreWithdrawn_update {log : List (K × V)} (unnamed : ∀ entry ∈ log, entry.1 ≠ key) (saved : Option V)
    (map : K → Option V) :
    restoreWithdrawn log (update map key saved) = update (restoreWithdrawn log map) key saved := by
  induction log generalizing map with
  | nil => rfl
  | cons entry rest ih =>
    have different := unnamed entry mem_cons_self
    change restoreWithdrawn rest (putBack entry.1 (some entry.2) (update map key saved)) = _
    rw [putBack_update different]
    exact ih (fun entry member => unnamed entry (mem_cons_of_mem _ member)) _

/-- The third pass undoes the withdrawals. -/
theorem Withdrawn.undo {log : List (K × V)} (done : Withdrawn base map log) : restoreWithdrawn log map = base := by
  induction done with
  | start => rfl
  | @withdraw map log done key value held ih =>
    have unnamed : ∀ entry ∈ log, entry.1 ≠ key := by
      intro entry member same
      have free := done.free entry member
      rw [same, held] at free
      cases free
    have kept : base key = some value := by
      have frame := congrFun (restoreWithdrawn_update unnamed (map key) map) key
      rw [update_eq_self, update_self, ih] at frame
      rw [frame, held]
    unfold restoreWithdrawn at ih ⊢
    rw [foldl_append]
    change putBack key (some value) (restoreWithdrawn log (update map key none)) = base
    rw [restoreWithdrawn_update unnamed, restoreWithdrawn, ih]
    funext other
    by_cases same : other = key
    · subst same
      simp [kept]
    · rw [putBack_of_ne same, update_of_ne same]

/-- The value of a key after insertions: its newest one, or what the base holds. -/
theorem Inserted.value (done : Inserted markOf base map log) (key : K) :
    (∃ entry ∈ log, entry.key = key ∧ ∃ value, map key = some value ∧ markOf value = entry.mark) ∨
      ((∀ entry ∈ log, entry.key ≠ key) ∧ map key = base key) := by
  induction done with
  | start => exact .inr ⟨by simp, rfl⟩
  | @insert map log done own value restore first again ih =>
    by_cases same : key = own
    · subst same
      refine .inl ⟨_, mem_append_right _ (mem_singleton_self _), rfl, value, ?_, rfl⟩
      exact update_self key (some value) map
    · rw [update_of_ne same]
      rcases ih with ⟨entry, member, ownKey, found⟩ | ⟨unnamed, kept⟩
      · exact .inl ⟨entry, mem_append_left _ member, ownKey, found⟩
      · refine .inr ⟨fun entry member => ?_, kept⟩
        rcases mem_append.mp member with old | new
        · exact unnamed entry old
        · rw [mem_singleton.mp new]
          exact fun equal => same equal.symm

/-- An empty key stays empty in the first pass, which treats every key alone. -/
theorem removeInsertions_update [DecidableEq I] (log : List (UndoEntry K V I)) (key : K) (map : K → Option V) :
    removeInsertions markOf log (update map key none) =
      update (removeInsertions markOf log map) key none := by
  induction log with
  | nil => rfl
  | cons entry rest ih =>
    change removeStep markOf entry (removeInsertions markOf rest (update map key none)) =
      update (removeStep markOf entry (removeInsertions markOf rest map)) key none
    rw [ih]
    unfold removeStep
    by_cases same : entry.key = key
    · subst same
      rw [update_self, Option.any_none, if_neg Bool.false_ne_true]
      split
      · exact (update_idem _ _ _).symm
      · rfl
    · rw [update_of_ne same]
      split
      · exact (update_comm same _ _ _).symm
      · rfl

/-- The second pass does not look at a key that the log does not name. -/
theorem restoreReplaced_update (unnamed : ∀ entry ∈ log, entry.key ≠ key) (saved : Option V) (map : K → Option V) :
    restoreReplaced log (update map key saved) = update (restoreReplaced log map) key saved := by
  induction log generalizing map with
  | nil => rfl
  | cons entry rest ih =>
    have different := unnamed entry mem_cons_self
    have later := ih fun entry member => unnamed entry (mem_cons_of_mem _ member)
    unfold restoreReplaced at later ⊢
    rw [foldl_cons, foldl_cons]
    by_cases flagged : entry.restore
    · rw [if_pos flagged, if_pos flagged, putBack_update different]
      exact later _
    · rw [if_neg flagged, if_neg flagged]
      exact later _

/-- The newest insertion is the first one to go, so its key is empty for the rest of the pass. -/
theorem removeInsertions_insert [DecidableEq I] (log : List (UndoEntry K V I)) (map : K → Option V) (key : K)
    (value : V) (restore : Bool) (replaced : Option V) :
    removeInsertions markOf (log ++ [⟨key, markOf value, restore, replaced⟩]) (update map key (some value)) =
      update (removeInsertions markOf log map) key none := by
  have taken : removeStep markOf ⟨key, markOf value, restore, replaced⟩ (update map key (some value)) =
      update map key none := by
    simp [removeStep]
  rw [← removeInsertions_update, ← taken]
  unfold removeInsertions
  rw [foldr_append]
  rfl

/-- The first pass empties every key of the log. -/
theorem Inserted.cleared [DecidableEq I] (done : Inserted markOf base map log) :
    ∀ entry ∈ log, removeInsertions markOf log map entry.key = none := by
  induction done with
  | start =>
    intro _ absent
    cases absent
  | @insert map log done key value restore first again ih =>
    intro entry member
    rw [removeInsertions_insert]
    by_cases same : entry.key = key
    · rw [same, update_self]
    · rw [update_of_ne same]
      rcases mem_append.mp member with old | new
      · exact ih entry old
      · exact absurd (congrArg UndoEntry.key (mem_singleton.mp new)) same

/-- The first two passes undo the insertions. -/
theorem Inserted.undo [DecidableEq I] (done : Inserted markOf base map log) :
    restoreReplaced log (removeInsertions markOf log map) = base := by
  induction done with
  | start => rfl
  | @insert map log done key value restore first again ih =>
    rw [removeInsertions_insert]
    unfold restoreReplaced
    rw [foldl_append]
    change (if restore then putBack key (map key) (restoreReplaced log _) else restoreReplaced log _) = base
    rcases done.value key with ⟨entry, member, ownKey, old, held, mark⟩ | ⟨unnamed, kept⟩
    · -- An earlier insertion under this key has emptied it already.
      have empty : update (removeInsertions markOf log map) key none = removeInsertions markOf log map := by
        rw [← ownKey, ← done.cleared entry member]
        exact update_eq_self _ _
      rw [empty, again entry member ownKey old held mark, if_neg Bool.false_ne_true]
      exact ih
    · rw [restoreReplaced_update unnamed, ih, first unnamed]
      funext other
      by_cases same : other = key
      · subst same
        rcases held : map other with _ | old
        · simp [← kept, held]
        · simp [← kept, held]
      · split
        · rw [putBack_of_ne same, update_of_ne same]
        · rw [update_of_ne same]

end UndoLog

end Library
