import Mathlib.Tactic

namespace Library

/-! Work that may fail and whose writes stay written when it does. -/

section Transaction

variable {S E V A B : Type}

/-- The work that fails is one that wrote nothing of what is seen. -/
def Atomic (view : S → V) (work : ExceptT E (StateM S) A) : Prop :=
  ∀ state fault, (work.run.run state).1 = .error fault → view (work.run.run state).2 = view state

/-- The work writes nothing of what is seen. -/
def Preserves (view : S → V) (work : ExceptT E (StateM S) A) : Prop :=
  ∀ state, view (work.run.run state).2 = view state

/-- The work never fails, and its result is one of these. -/
def Returns (results : A → Prop) (work : ExceptT E (StateM S) A) : Prop :=
  ∀ state, ∃ value, (work.run.run state).1 = .ok value ∧ results value

/-- The work never fails. -/
abbrev Total (work : ExceptT E (StateM S) A) : Prop := Returns (fun _ => True) work

variable {view : S → V} {work : ExceptT E (StateM S) A} {next : A → ExceptT E (StateM S) B}
  {results : A → Prop} {ends : B → Prop}

/-- A sequence either ends with its first failure or goes on from the first state. -/
theorem run_bind_cases (work : ExceptT E (StateM S) A) (next : A → ExceptT E (StateM S) B) (state : S) :
    (∃ fault, (work.run.run state).1 = .error fault ∧
      ((work >>= next).run.run state) = (.error fault, (work.run.run state).2)) ∨
    ∃ value, (work.run.run state).1 = .ok value ∧
      ((work >>= next).run.run state) = (next value).run.run (work.run.run state).2 := by
  rcases result : work.run.run state with ⟨fault | value, after⟩
  · refine .inl ⟨fault, rfl, ?_⟩
    simp only [ExceptT.run_bind, StateT.run_bind, result]
    rfl
  · refine .inr ⟨value, rfl, ?_⟩
    simp only [ExceptT.run_bind, StateT.run_bind, result]
    rfl

theorem Preserves.pure (value : A) : Preserves view (Pure.pure value : ExceptT E (StateM S) A) :=
  fun _ => rfl

theorem Preserves.throw (fault : E) : Preserves view (MonadExcept.throw fault : ExceptT E (StateM S) A) :=
  fun _ => rfl

theorem Preserves.get : Preserves view (MonadState.get : ExceptT E (StateM S) S) :=
  fun _ => rfl

theorem Preserves.bind (first : Preserves view work) (rest : ∀ value, Preserves view (next value)) :
    Preserves view (work >>= next) := by
  intro state
  rcases run_bind_cases work next state with ⟨fault, -, whole⟩ | ⟨value, -, whole⟩
  · rw [whole]
    exact first state
  · rw [whole, rest value]
    exact first state

theorem Preserves.atomic (preserves : Preserves view work) : Atomic view work :=
  fun state _ _ => preserves state

theorem Returns.pure {value : A} (found : results value) : Returns results (Pure.pure value : ExceptT E (StateM S) A) :=
  fun _ => ⟨value, rfl, found⟩

theorem Returns.modify (change : S → S) : Total (modify change : ExceptT E (StateM S) PUnit) :=
  fun _ => ⟨⟨⟩, rfl, trivial⟩

theorem Returns.bind (first : Returns results work) (rest : ∀ value, results value → Returns ends (next value)) :
    Returns ends (work >>= next) := by
  intro state
  obtain ⟨value, done, found⟩ := first state
  rcases run_bind_cases work next state with ⟨fault, stopped, -⟩ | ⟨other, again, whole⟩
  · cases done.symm.trans stopped
  · cases done.symm.trans again
    rw [whole]
    exact rest value found _

theorem Returns.atomic (total : Returns results work) : Atomic view work := by
  intro state fault failed
  obtain ⟨value, done, -⟩ := total state
  cases done.symm.trans failed

/-- Reading and building come before the writes. -/
theorem Atomic.after (first : Preserves view work) (rest : ∀ value, Atomic view (next value)) :
    Atomic view (work >>= next) := by
  intro state fault failed
  rcases run_bind_cases work next state with ⟨other, -, whole⟩ | ⟨value, -, whole⟩
  · rw [whole]
    exact first state
  · rw [whole] at failed ⊢
    rw [rest value _ fault failed]
    exact first state

/-- What follows the first write does not fail. -/
theorem Atomic.before (first : Atomic view work) (rest : ∀ value, Total (next value)) :
    Atomic view (work >>= next) := by
  intro state fault failed
  rcases run_bind_cases work next state with ⟨other, stopped, whole⟩ | ⟨value, -, whole⟩
  · rw [whole]
    exact first state other stopped
  · rw [whole] at failed
    obtain ⟨result, done, -⟩ := rest value (work.run.run state).2
    cases done.symm.trans failed

end Transaction

end Library
