import Mathlib.Data.List.Basic
import Mathlib.Tactic

namespace Library

/-- A chain of steps, one for each item of a list. -/
inductive Steps {Item State : Type} (step : Item → State → State → Prop) : List Item → State → State → Prop
  | done (state : State) : Steps step [] state state
  | next {item : Item} {rest : List Item} {first second third : State} (head : step item first second)
      (tail : Steps step rest second third) : Steps step (item :: rest) first third

namespace Steps

variable {Item State : Type} {step : Item → State → State → Prop} {items more : List Item} {first second third : State}

theorem append (run : Steps step items first second) (next : Steps step more second third) :
    Steps step (items ++ more) first third := by
  induction run with
  | done => exact next
  | next head _ ih => exact .next head (ih next)

/-- A chain over two lists is a chain over the first one and then a chain over the second one. -/
theorem append_iff : Steps step (items ++ more) first third ↔
    ∃ second, Steps step items first second ∧ Steps step more second third := by
  constructor
  · intro run
    induction items generalizing first with
    | nil => exact ⟨first, .done first, run⟩
    | cons item rest ih =>
      cases run with
      | next head tail =>
        obtain ⟨second, front, back⟩ := ih tail
        exact ⟨second, .next head front, back⟩
  · rintro ⟨second, front, back⟩
    exact front.append back

end Steps

end Library
