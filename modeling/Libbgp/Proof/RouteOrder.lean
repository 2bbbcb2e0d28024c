import Mathlib.Data.Prod.Lex
import Mathlib.Data.List.Lex
import Libbgp.Construction.RibIndex

namespace Libbgp

open Library

/-- The bytes of a router identifier determine it. -/
theorem addrBytes_injective {a b : RouterId} (same : addrBytes a = addrBytes b) : a = b := by
  have bytes : ∀ index < 4, addrByte a index = addrByte b index := by
    intro index inside
    exact List.map_inj_left.mp same index (by simpa using inside)
  have first := bytes 0 (by decide)
  have second := bytes 1 (by decide)
  have third := bytes 2 (by decide)
  have fourth := bytes 3 (by decide)
  simp only [addrByte, Nat.shiftRight_eq_div_pow] at first second third fourth
  have aLimit := a.isLt
  have bLimit := b.isLt
  apply BitVec.eq_of_toNat_eq
  omega

section Order

variable {width : Nat} {a b : Route width} {members : Set (Route width)}

/-- The compared fields of a route, in the order of their tests; smaller is preferred. -/
abbrev PreferenceKey := ℤ ×ₗ ℤ ×ₗ ℕ ×ₗ ℕ ×ₗ ℕ ×ₗ ℕ ×ₗ ℕ ×ₗ List ℕ

/-- Weight, local preference, path length, origin, MED where it counts, external before internal,
update id and router id. -/
def preferenceKey (useMed : Bool) (route : Route width) : PreferenceKey :=
  toLex (-route.weight, toLex (-(effectiveLocalPref route).toNat, toLex (route.asPathLen,
    toLex (route.origin.toNat, toLex (if useMed then route.med.toNat else 0,
      toLex (route.isIbgp.toNat, toLex (route.updateId.toNat, addrBytes route.sourceRouterId)))))))

/-- One test of the comparison is one component of the lexicographic order. -/
theorem test_eq_lex_lt {A B : Type} [LinearOrder A] [LinearOrder B] {x y : A} {p q : B} {differ : Prop}
    [Decidable differ] {won later : Bool} (apart : differ ↔ x ≠ y) (first : differ → (won = true ↔ x < y))
    (rest : later = decide (p < q)) : (if differ then won else later) = decide (toLex (x, p) < toLex (y, q)) := by
  rw [Bool.eq_iff_iff, decide_eq_true_iff, Prod.Lex.toLex_lt_toLex]
  by_cases different : differ
  · have unequal := apart.mp different
    simp [different, unequal, first different]
  · have equal : x = y := by
      by_contra unequal
      exact different (apart.mpr unequal)
    simp [different, equal, rest]

/-- The comparison of two routes is the comparison of their keys. -/
theorem ribBetter_eq_key_lt (a b : Route width) :
    ribBetter a b =
      decide (preferenceKey (medComparable a b) a < preferenceKey (medComparable a b) b) := by
  have medApart : medComparable a b = true → a.med ≠ b.med := by
    simp only [medComparable, Bool.and_eq_true, bne_iff_ne]
    exact fun comparable => comparable.1.1.1
  unfold ribBetter preferenceKey
  refine test_eq_lex_lt (by simp [neg_inj]) (fun _ => by simp) ?_
  refine test_eq_lex_lt (by simp [neg_inj, UInt32.toNat_inj]) (fun _ => by simp [UInt32.lt_iff_toNat_lt]) ?_
  refine test_eq_lex_lt Iff.rfl (fun _ => by simp) ?_
  refine test_eq_lex_lt (by simp [UInt8.toNat_inj]) (fun _ => by simp [UInt8.lt_iff_toNat_lt]) ?_
  refine test_eq_lex_lt ?_ (fun comparable => by simp [comparable, UInt32.lt_iff_toNat_lt]) ?_
  · by_cases comparable : medComparable a b = true
    · simpa [comparable, UInt32.toNat_inj] using medApart comparable
    · simp [comparable]
  refine test_eq_lex_lt ?_ ?_ ?_
  · cases a.isIbgp <;> cases b.isIbgp <;> simp
  · cases a.isIbgp <;> cases b.isIbgp <;> simp
  refine test_eq_lex_lt (by simp [UInt64.toNat_inj]) (fun _ => by simp [UInt64.lt_iff_toNat_lt]) ?_
  exact decide_eq_decide.mpr Iff.rfl

theorem medComparable_comm (a b : Route width) : medComparable a b = medComparable b a := by
  rw [Bool.eq_iff_iff]
  simp only [medComparable, Bool.and_eq_true, bne_iff_ne, beq_iff_eq]
  constructor <;> rintro ⟨⟨⟨different, left⟩, right⟩, same⟩ <;>
    exact ⟨⟨⟨different.symm, right⟩, left⟩, same.symm⟩

theorem ribBetter_asymmetric : Preference.Asymmetric (@ribBetter width) := by
  intro a b wins
  rw [ribBetter_eq_key_lt, decide_eq_true_iff] at wins
  rw [ribBetter_eq_key_lt, medComparable_comm b a, decide_eq_false_iff_not]
  exact lt_asymm wins

theorem preferenceKey_source {useMed : Bool} (same : preferenceKey useMed a = preferenceKey useMed b) :
    a.sourceRouterId = b.sourceRouterId := by
  apply addrBytes_injective
  exact congrArg (fun key : PreferenceKey =>
    (ofLex (ofLex (ofLex (ofLex (ofLex (ofLex (ofLex key).2).2).2).2).2).2).2) same

/-- Routes of different sources are never tied. -/
theorem ribBetter_decisive (apart : a.sourceRouterId ≠ b.sourceRouterId) :
    ribBetter a b = true ∨ ribBetter b a = true := by
  rw [ribBetter_eq_key_lt, ribBetter_eq_key_lt b, medComparable_comm b a, decide_eq_true_iff,
    decide_eq_true_iff]
  exact lt_or_gt_of_ne fun same => apart (preferenceKey_source same)

/-- Any two routes with different MED have the same neighbour AS. -/
def MedUniform (members : Set (Route width)) : Prop :=
  ∀ a ∈ members, ∀ b ∈ members, a.med ≠ b.med →
    ∃ asn, ribNeighborAs a = some asn ∧ ribNeighborAs b = some asn

/-- Where MED always counts, the comparison is the order of the full keys. -/
theorem MedUniform.ribBetter_iff (uniform : MedUniform members) (aIn : a ∈ members) (bIn : b ∈ members) :
    ribBetter a b = true ↔ preferenceKey true a < preferenceKey true b := by
  rw [ribBetter_eq_key_lt, decide_eq_true_iff]
  by_cases comparable : medComparable a b = true
  · rw [comparable]
  · have equal : a.med = b.med := by
      by_contra different
      obtain ⟨asn, aFrom, bFrom⟩ := uniform a aIn b bIn different
      exact comparable (by simp [medComparable, aFrom, bFrom, different])
    simp only [Bool.not_eq_true] at comparable
    simp [preferenceKey, comparable, equal, Prod.Lex.toLex_lt_toLex]

theorem MedUniform.acyclic (uniform : MedUniform members) : Preference.Acyclic ribBetter members := by
  intro a aIn b bIn c cIn aOverB bOverC
  rw [uniform.ribBetter_iff aIn bIn] at aOverB
  rw [uniform.ribBetter_iff bIn cIn] at bOverC
  rw [← Bool.not_eq_true, uniform.ribBetter_iff cIn aIn]
  exact lt_asymm (aOverB.trans bOverC)

end Order

end Libbgp
