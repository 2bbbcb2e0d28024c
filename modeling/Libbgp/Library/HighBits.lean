import Mathlib.Data.Set.Basic
import Mathlib.Tactic

namespace Library.HighBits

variable {width : Nat} {len innerLen outerLen : Nat} {left right inner outer : BitVec width}

/-- Two words have the same first bits, from the most significant one. -/
def Agree (len : Nat) (left right : BitVec width) : Prop :=
  ∀ bit < len, left.getMsbD bit = right.getMsbD bit

theorem Agree.refl (len : Nat) (word : BitVec width) : Agree len word word := fun _ _ => rfl

theorem Agree.symm (agree : Agree len left right) : Agree len right left :=
  fun bit inside => (agree bit inside).symm

theorem Agree.trans {third : BitVec width} (first : Agree len left right) (second : Agree len right third) :
    Agree len left third :=
  fun bit inside => (first bit inside).trans (second bit inside)

theorem Agree.mono (agree : Agree len left right) (fewer : outerLen ≤ len) : Agree outerLen left right :=
  fun bit inside => agree bit (inside.trans_le fewer)

/-- The words that begin with the given bits. -/
def block (len : Nat) (word : BitVec width) : Set (BitVec width) := {other | Agree len other word}

/-- A word with one bit inverted. -/
def flip (word : BitVec width) (bit : Nat) : BitVec width := word ^^^ BitVec.twoPow width (width - 1 - bit)

theorem getMsbD_flip {bit : Nat} (inside : bit < width) (place : Nat) :
    (flip left bit).getMsbD place = (left.getMsbD place ^^ decide (place = bit)) := by
  have same : (BitVec.twoPow width (width - 1 - bit)).getMsbD place = decide (place = bit) := by
    rw [BitVec.getMsbD_eq_getLsbD, BitVec.getLsbD_twoPow]
    by_cases here : place = bit
    · subst here
      simp
      omega
    · simp [here]
      omega
  rw [flip, BitVec.getMsbD_xor, same]

/-- A block lies in another one exactly when it fixes at least the same bits. -/
theorem block_subset_iff (fits : outerLen ≤ width) :
    block innerLen inner ⊆ block outerLen outer ↔ outerLen ≤ innerLen ∧ Agree outerLen inner outer := by
  constructor
  · intro subset
    have agree : Agree outerLen inner outer := subset (Agree.refl innerLen inner)
    refine ⟨Nat.le_of_not_lt fun fewer => ?_, agree⟩
    -- The first bit that only the outer block fixes is free in the inner one.
    have inside : innerLen < width := fewer.trans_le fits
    have member : flip inner innerLen ∈ block innerLen inner := by
      intro bit early
      rw [getMsbD_flip inside, decide_eq_false early.ne, Bool.xor_false]
    have moved := subset member innerLen fewer
    rw [← agree innerLen fewer, getMsbD_flip inside] at moved
    simp at moved
  · rintro ⟨fewer, agree⟩ word member
    exact Agree.trans (Agree.mono member fewer) agree

theorem eq_iff_getMsbD : left = right ↔ ∀ bit < width, left.getMsbD bit = right.getMsbD bit := by
  constructor
  · rintro rfl bit _
    rfl
  · exact BitVec.eq_of_getMsbD_eq

/-- Words that are cut off after the same length are equal exactly when they agree before it. -/
theorem eq_iff_agree (cut : BitVec width → BitVec width) (fits : len ≤ width)
    (bits : ∀ word, ∀ bit < width, (cut word).getMsbD bit = (word.getMsbD bit && decide (bit < len))) :
    cut left = cut right ↔ Agree len left right := by
  rw [eq_iff_getMsbD]
  constructor
  · intro same bit inside
    have within := inside.trans_le fits
    have both := same bit within
    rwa [bits left bit within, bits right bit within, decide_eq_true inside, Bool.and_true, Bool.and_true] at both
  · intro agree bit within
    rw [bits left bit within, bits right bit within]
    by_cases inside : bit < len
    · rw [agree bit inside]
    · rw [decide_eq_false inside, Bool.and_false, Bool.and_false]

theorem getMsbD_shift (fits : len ≤ width) (word : BitVec width) (bit : Nat) :
    ((word >>> (width - len)) <<< (width - len)).getMsbD bit = (word.getMsbD bit && decide (bit < len)) := by
  rw [BitVec.getMsbD_shiftLeft, BitVec.getMsbD_ushiftRight]
  by_cases inside : bit < len
  · simp [inside]
    omega
  · simp [inside]
    omega

end Library.HighBits
