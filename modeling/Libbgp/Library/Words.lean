/-
Numbers as big-endian bytes, and rows of words of one size.
-/

import Mathlib.Tactic

namespace Library

open List

namespace Words

/-- The number that some bytes stand for, the most significant one first. -/
def value (bytes : List UInt8) : Nat := bytes.foldl (fun number byte => number * 256 + byte.toNat) 0

/-- The last bytes of a number, the most significant one first. -/
def write : Nat → Nat → List UInt8
  | 0, _ => []
  | size + 1, number => write size (number / 256) ++ [UInt8.ofNat number]

/-- The words of one size at the start of some bytes. -/
def row (size count : Nat) (bytes : List UInt8) : List Nat :=
  (range count).map fun position => value ((bytes.drop (position * size)).take size)

section Numbers

variable {bytes first second : List UInt8} (size : Nat)

@[simp] theorem value_nil : value [] = 0 := rfl

theorem foldl_value (start : Nat) :
    bytes.foldl (fun number byte => number * 256 + byte.toNat) start = start * 256 ^ bytes.length + value bytes := by
  induction bytes generalizing start with
  | nil => simp [value]
  | cons byte rest ih =>
    rw [value, foldl_cons, foldl_cons, ih, ih (0 * 256 + byte.toNat), length_cons, pow_succ]
    ring

theorem value_cons (byte : UInt8) : value (byte :: bytes) = byte.toNat * 256 ^ bytes.length + value bytes := by
  rw [value, foldl_cons, foldl_value]
  simp

theorem value_append : value (first ++ second) = value first * 256 ^ second.length + value second := by
  rw [value, foldl_append, foldl_value]
  rfl

theorem value_lt : value bytes < 256 ^ bytes.length := by
  induction bytes with
  | nil => simp
  | cons byte rest ih =>
    have small := byte.toNat_lt
    rw [value_cons, length_cons, pow_succ]
    nlinarith [Nat.mul_le_mul_right (256 ^ rest.length) (Nat.succ_le_of_lt small)]

theorem value_replicate_zero (count : Nat) : value (replicate count 0) = 0 := by
  induction count with
  | zero => rfl
  | succ count ih => simp [replicate_succ, value_cons, ih]

/-- The first bytes are the number without its last digits. -/
theorem value_take (count : Nat) : value (bytes.take count) = value bytes / 256 ^ (bytes.length - count) := by
  have split := @value_append (bytes.take count) (bytes.drop count)
  have small := @value_lt (bytes.drop count)
  rw [take_append_drop] at split
  rw [length_drop] at split small
  rw [split, Nat.add_comm, Nat.add_mul_div_right _ _ (by positivity), Nat.div_eq_of_lt small, Nat.zero_add]

@[simp] theorem length_write (number : Nat) : (write size number).length = size := by
  induction size generalizing number with
  | zero => rfl
  | succ size ih => simp [write, ih]

theorem value_write (number : Nat) : value (write size number) = number % 256 ^ size := by
  induction size generalizing number with
  | zero => simp [write, Nat.mod_one]
  | succ size ih =>
    have digit : (UInt8.ofNat number).toNat = number % 256 := by simp
    rw [write, value_append, ih, value_cons, digit, pow_succ', Nat.mod_mul]
    simp only [length_singleton, length_nil, pow_one, pow_zero, Nat.mul_one, value_nil, Nat.add_zero]
    ring

/-- Bytes of one length are told apart by their number. -/
theorem value_injective (length : first.length = second.length) (same : value first = value second) :
    first = second := by
  induction first generalizing second with
  | nil => exact (length_eq_zero_iff.mp length.symm).symm
  | cons byte rest ih =>
    cases second with
    | nil => cases length
    | cons other tail =>
      have lengths : rest.length = tail.length := Nat.succ.inj length
      rw [value_cons, value_cons, ← lengths] at same
      have early := @value_lt rest
      have late := @value_lt tail
      rw [← lengths] at late
      have heads : byte.toNat = other.toNat := by
        have left := congrArg (· / 256 ^ rest.length) same
        simpa [Nat.add_div_of_dvd_right (Nat.dvd_mul_left _ _), Nat.div_eq_of_lt early, Nat.div_eq_of_lt late,
          Nat.mul_div_cancel] using left
      have tails : value rest = value tail := by rw [heads] at same; omega
      rw [UInt8.toNat_inj.mp heads, ih lengths tails]

theorem write_value (length : bytes.length = size) : write size (value bytes) = bytes := by
  refine value_injective (by simp [length]) ?_
  rw [value_write, ← length, Nat.mod_eq_of_lt value_lt]

end Numbers

section Rows

variable {size count : Nat} {bytes rest : List UInt8}

@[simp] theorem length_row : (row size count bytes).length = count := by
  simp [row]

theorem row_succ : row size (count + 1) bytes = value (bytes.take size) :: row size count (bytes.drop size) := by
  simp only [row, range_succ_eq_map, map_cons, map_map, Nat.zero_mul, drop_zero, cons.injEq,
    true_and]
  refine map_congr_left fun position _ => ?_
  simp [drop_drop, Nat.succ_mul, Nat.add_comm]

theorem row_lt {number : Nat} (member : number ∈ row size count bytes) : number < 256 ^ size := by
  obtain ⟨position, -, rfl⟩ := mem_map.mp member
  refine lt_of_lt_of_le value_lt (Nat.pow_le_pow_right (by decide) ?_)
  exact length_take_le _ _

/-- A row that is written can be read back. -/
theorem row_write (numbers : List Nat) (small : ∀ number ∈ numbers, number < 256 ^ size) :
    row size numbers.length (numbers.flatMap (write size) ++ rest) = numbers := by
  induction numbers with
  | nil => rfl
  | cons number numbers ih =>
    rw [length_cons, row_succ, flatMap_cons, append_assoc, take_left' (length_write _ _),
      drop_left' (length_write _ _), ih fun other member => small other (mem_cons_of_mem _ member),
      value_write, Nat.mod_eq_of_lt (small number mem_cons_self)]

/-- A row that is read is written as the same bytes. -/
theorem write_row (enough : count * size ≤ bytes.length) :
    (row size count bytes).flatMap (write size) = bytes.take (count * size) := by
  induction count generalizing bytes with
  | zero => simp [row]
  | succ count ih =>
    have first : size ≤ bytes.length := by
      rw [Nat.succ_mul] at enough
      omega
    have later : count * size ≤ (bytes.drop size).length := by
      rw [Nat.succ_mul] at enough
      rw [length_drop]
      omega
    rw [row_succ, flatMap_cons, ih later, write_value size (length_take_of_le first), Nat.succ_mul,
      Nat.add_comm (count * size), take_add]

end Rows

end Words

end Library
