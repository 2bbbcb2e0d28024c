import Mathlib.Data.List.Basic
import Mathlib.Tactic

namespace Library

open List

/-- The answers of an allocator to the next requests; it grants every request after the last one. -/
abbrev Allocator := List Bool

namespace Allocator

variable {first second third before after : Allocator} (count : Nat) (alloc : Allocator)

/-- One request takes the next answer. -/
def request : Allocator → Bool × Allocator
  | [] => (true, [])
  | answer :: rest => (answer, rest)

/-- A block of requests stops at the first refusal. -/
def requests : Nat → Allocator → Bool × Allocator
  | 0, alloc => (true, alloc)
  | count + 1, alloc =>
    match request alloc with
    | (true, rest) => requests count rest
    | (false, rest) => (false, rest)

/-- A block of requests that are all made, whatever their answers. -/
def requestAll : Nat → Allocator → Bool × Allocator
  | 0, alloc => (true, alloc)
  | count + 1, alloc =>
    match request alloc with
    | (answer, rest) =>
      match requestAll count rest with
      | (others, left) => (answer && others, left)

/-- The second allocator is what some requests leave of the first one. -/
def Spent (before after : Allocator) : Prop :=
  ∃ count, after = before.drop count

/-- One of the requests between the two allocators was refused. -/
def Refused (before after : Allocator) : Prop :=
  ∃ count, after = before.drop count ∧ false ∈ before.take count

/-- This allocator grants every request. -/
def Generous (alloc : Allocator) : Prop :=
  ∀ answer ∈ alloc, answer = true

/-- Every request after the first refusal is granted. -/
def SingleRefusal (alloc : Allocator) : Prop :=
  ∀ granted rest, alloc = granted ++ false :: rest → Generous rest

theorem Spent.refl : Spent alloc alloc :=
  ⟨0, rfl⟩

theorem Spent.trans (left : Spent first second) (right : Spent second third) : Spent first third := by
  obtain ⟨leftCount, rfl⟩ := left
  obtain ⟨rightCount, rfl⟩ := right
  exact ⟨leftCount + rightCount, by rw [drop_drop]⟩

theorem Refused.spent (refused : Refused before after) : Spent before after :=
  let ⟨count, rest, _⟩ := refused
  ⟨count, rest⟩

theorem Refused.trans_spent (left : Refused first second) (right : Spent second third) : Refused first third := by
  obtain ⟨leftCount, rfl, refusal⟩ := left
  obtain ⟨rightCount, rfl⟩ := right
  refine ⟨leftCount + rightCount, by rw [drop_drop], ?_⟩
  rw [take_add]
  exact mem_append_left _ refusal

theorem Spent.trans_refused (left : Spent first second) (right : Refused second third) : Refused first third := by
  obtain ⟨leftCount, rfl⟩ := left
  obtain ⟨rightCount, rfl, refusal⟩ := right
  refine ⟨leftCount + rightCount, by rw [drop_drop], ?_⟩
  rw [take_add]
  exact mem_append_right _ refusal

theorem Generous.spent (generous : Generous before) (spent : Spent before after) : Generous after := by
  obtain ⟨count, rfl⟩ := spent
  intro answer member
  exact generous answer (mem_of_mem_drop member)

/-- A generous allocator refuses nothing. -/
theorem Generous.not_refused (generous : Generous before) : ¬ Refused before after := by
  rintro ⟨count, -, refusal⟩
  exact Bool.noConfusion (generous false (mem_of_mem_take refusal))

theorem generous_nil : Generous [] :=
  nofun

/-- A refusal uses up the only one that the allocator had. -/
theorem SingleRefusal.generous_of_refused (single : SingleRefusal before) (refused : Refused before after) :
    Generous after := by
  obtain ⟨count, rfl, refusal⟩ := refused
  obtain ⟨granted, rest, split⟩ := append_of_mem refusal
  have whole : before = granted ++ false :: (rest ++ before.drop count) := by
    calc before = before.take count ++ before.drop count := (take_append_drop count before).symm
      _ = granted ++ false :: (rest ++ before.drop count) := by rw [split]; simp
  intro answer member
  exact single granted _ whole answer (mem_append_right _ member)

theorem SingleRefusal.spent (single : SingleRefusal before) (spent : Spent before after) : SingleRefusal after := by
  obtain ⟨count, rfl⟩ := spent
  intro granted rest split
  apply single (before.take count ++ granted) rest
  rw [append_assoc, ← split, take_append_drop]

/-- The last answer is the only refusal. -/
theorem singleRefusal_last {granted : Allocator} (generous : Generous granted) :
    SingleRefusal (granted ++ [false]) := by
  intro early rest split
  induction granted generalizing early with
  | nil =>
    cases early with
    | nil => cases split; exact generous_nil
    | cons answer early => simp at split
  | cons answer granted ih =>
    cases early with
    | nil => simp [generous answer mem_cons_self] at split
    | cons other early =>
      exact ih (fun later member => generous later (mem_cons_of_mem _ member)) early (cons.inj split).2

/-- A request is granted, or it is refused. -/
theorem request_cases :
    (∃ rest, request alloc = (true, rest) ∧ Spent alloc rest) ∨
      (∃ rest, request alloc = (false, rest) ∧ Refused alloc rest) := by
  cases alloc with
  | nil => exact .inl ⟨[], rfl, Spent.refl _⟩
  | cons answer rest =>
    cases answer with
    | true => exact .inl ⟨rest, rfl, 1, rfl⟩
    | false => exact .inr ⟨rest, rfl, 1, rfl, by simp⟩

/-- A block of requests is granted as a whole, or one of them is refused. -/
theorem requests_cases :
    (∃ rest, requests count alloc = (true, rest) ∧ Spent alloc rest) ∨
      (∃ rest, requests count alloc = (false, rest) ∧ Refused alloc rest) := by
  induction count generalizing alloc with
  | zero => exact .inl ⟨alloc, rfl, Spent.refl _⟩
  | succ count ih =>
    rcases request_cases alloc with ⟨rest, granted, spent⟩ | ⟨rest, denied, refused⟩
    · have unfolded : requests (count + 1) alloc = requests count rest := by simp [requests, granted]
      rcases ih rest with ⟨left, done, more⟩ | ⟨left, failed, more⟩
      · exact .inl ⟨left, unfolded.trans done, spent.trans more⟩
      · exact .inr ⟨left, unfolded.trans failed, spent.trans_refused more⟩
    · exact .inr ⟨rest, by simp [requests, denied], refused⟩

@[simp] theorem request_nil : request [] = (true, []) := rfl

@[simp] theorem requests_nil : requests count [] = (true, []) := by
  induction count with
  | zero => rfl
  | succ count ih => simpa [requests] using ih

/-- A block of requests that are all made is granted only when none of them is refused. -/
theorem requestAll_cases :
    (∃ rest, requestAll count alloc = (true, rest) ∧ Spent alloc rest) ∨
      (∃ rest, requestAll count alloc = (false, rest) ∧ Refused alloc rest) := by
  induction count generalizing alloc with
  | zero => exact .inl ⟨alloc, rfl, Spent.refl _⟩
  | succ count ih =>
    rcases request_cases alloc with ⟨rest, granted, spent⟩ | ⟨rest, denied, refused⟩
    · rcases ih rest with ⟨left, done, more⟩ | ⟨left, failed, more⟩
      · exact .inl ⟨left, by simp [requestAll, granted, done], spent.trans more⟩
      · exact .inr ⟨left, by simp [requestAll, granted, failed], spent.trans_refused more⟩
    · rcases ih rest with ⟨left, done, more⟩ | ⟨left, failed, more⟩
      · exact .inr ⟨left, by simp [requestAll, denied, done], refused.trans_spent more⟩
      · exact .inr ⟨left, by simp [requestAll, denied, failed], refused.trans_spent more.spent⟩

end Allocator

end Library
