/-
The part of a block of memory that is in use.
-/

import Mathlib.Data.List.Basic
import Mathlib.Tactic

namespace Library

open List

/-- A block, and the place and size of the part that is in use. -/
structure Window (A : Type) where
  block : List A
  start : Nat
  size : Nat

namespace Window

variable {A : Type}

def empty : Window A := ⟨[], 0, 0⟩

def view (window : Window A) : List A := (window.block.drop window.start).take window.size

/-- The part in use lies within the block. -/
def Fits (window : Window A) : Prop := window.start + window.size ≤ window.block.length

/-- The part in use is moved to the start of the block. -/
def compact (window : Window A) : Window A :=
  if window.start = 0 then window else ⟨window.view ++ window.block.drop window.size, 0, window.size⟩

/-- The block grows at its end. -/
def extend (window : Window A) (more : List A) : Window A := { window with block := window.block ++ more }

/-- Data is written behind the part in use, and then belongs to it. -/
def append (window : Window A) (data : List A) : Window A :=
  let last := window.start + window.size
  ⟨window.block.take last ++ data ++ window.block.drop (last + data.length), window.start, window.size + data.length⟩

/-- The first items are given up. -/
def dropFront (window : Window A) (count : Nat) : Window A :=
  if window.size ≤ count then ⟨window.block, 0, 0⟩
  else { window with start := window.start + count, size := window.size - count }

variable {window : Window A} {data : List A}

theorem Fits.length_view (fits : window.Fits) : window.view.length = window.size := by
  unfold Fits at fits
  rw [view, length_take, length_drop]
  omega

/-- Compacting keeps what the window shows. -/
theorem Fits.compact (fits : window.Fits) : window.compact.Fits ∧ window.compact.view = window.view ∧
    window.compact.start = 0 ∧ window.compact.size = window.size ∧
    window.compact.block.length = window.block.length := by
  have size := fits.length_view
  unfold Fits at fits
  unfold Window.compact
  split
  case isTrue first => exact ⟨fits, rfl, first, rfl, rfl⟩
  case isFalse =>
    have length : (window.view ++ window.block.drop window.size).length = window.block.length := by
      rw [length_append, size, length_drop]
      omega
    refine ⟨?_, take_left' size, rfl, rfl, length⟩
    show 0 + window.size ≤ (window.view ++ window.block.drop window.size).length
    omega

/-- A larger block shows the same data. -/
theorem Fits.extend (fits : window.Fits) (more : List A) :
    (window.extend more).Fits ∧ (window.extend more).view = window.view := by
  unfold Fits at *
  refine ⟨?_, ?_⟩
  · show window.start + window.size ≤ (window.block ++ more).length
    rw [length_append]
    omega
  · show ((window.block ++ more).drop window.start).take window.size = _
    rw [drop_append_of_le_length (by omega), take_append_of_le_length (by rw [length_drop]; omega)]
    rfl

/-- Appended data is shown behind the rest. -/
theorem Fits.append (fits : window.Fits) (room : window.start + window.size + data.length ≤ window.block.length) :
    (window.append data).Fits ∧ (window.append data).view = window.view ++ data ∧
      (window.append data).block.length = window.block.length := by
  unfold Fits at *
  have early : (window.block.take (window.start + window.size)).length = window.start + window.size :=
    length_take_of_le fits
  have view : (window.block.take (window.start + window.size)).drop window.start = window.view := by
    rw [drop_take, Nat.add_sub_cancel_left]
    rfl
  have size : (window.view ++ data).length = window.size + data.length := by
    rw [length_append, Fits.length_view fits]
  refine ⟨?_, ?_, ?_⟩
  · simp only [Window.append, length_append, length_drop, early]
    omega
  · show ((window.block.take (window.start + window.size) ++ data ++ _).drop window.start).take _ = _
    rw [append_assoc, drop_append_of_le_length (by omega), view, ← append_assoc]
    exact take_left' size
  · simp only [Window.append, length_append, length_drop, early]
    omega

/-- What is dropped is no longer shown. -/
theorem Fits.dropFront (fits : window.Fits) (count : Nat) :
    (window.dropFront count).Fits ∧ (window.dropFront count).view = window.view.drop count := by
  have length := fits.length_view
  unfold Fits at *
  unfold Window.dropFront
  split
  case isTrue all =>
    refine ⟨Nat.zero_le _, ?_⟩
    rw [drop_eq_nil_of_le (by omega)]
    rfl
  case isFalse =>
    refine ⟨?_, ?_⟩
    · show window.start + count + (window.size - count) ≤ window.block.length
      omega
    · show (window.block.drop (window.start + count)).take (window.size - count) = _
      rw [view, drop_take, drop_drop]

end Window

end Library
