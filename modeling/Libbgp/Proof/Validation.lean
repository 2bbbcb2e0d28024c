/-
The session's check of an UPDATE accepts what the parser accepts.
-/

import Libbgp.Proof.Clone

namespace Libbgp

open List

section Attributes

variable {wide : Bool} {attr : PAttr} {list seen : List PAttr}

theorem validAsPathAttr_legible (legible : attr.Legible wide) : validAsPathAttr attr = true := by
  have each {wide : Bool} {segments : List AsPathSegment} (good : ∀ segment ∈ segments, segment.Legible wide) :
      (segments.all fun segment =>
        (segment.type == 1 || segment.type == 2) && segment.asns.length != 0 && segment.asns.length ≤ 255) = true := by
    rw [all_eq_true]
    intro segment member
    obtain ⟨type, nonempty, few, -⟩ := good segment member
    simp [type, nonempty, few]
  have data := legible.data
  obtain ⟨flags, value⟩ := attr
  cases value with
  | asPath segments is4b | as4Path segments is4b => exact each data.2
  | _ => rfl

/-- A legible attribute passes the multiprotocol check. -/
theorem validateUpdateMpAttr_legible (legible : attr.Legible wide) : validateUpdateMpAttr attr = none := by
  have fits {prefixes : List (Prefix 128)} (good : ∀ pfx ∈ prefixes, pfx.len ≤ 128) :
      ¬ prefixes.any (128 < ·.len) = true := by
    intro long
    obtain ⟨pfx, member, longer⟩ := any_eq_true.mp long
    exact absurd (good pfx member) (Nat.not_le.mpr (of_decide_eq_true longer))
  have data := legible.data
  obtain ⟨flags, value⟩ := attr
  cases value with
  | mpReachIpv6 nexthop linkLocal nexthopLen nlri =>
    have sized : ¬ (nexthopLen ≠ 16 ∧ nexthopLen ≠ 32) := by
      rintro ⟨short, long⟩
      exact data.1.elim (fun both => short both.1) long
    exact (if_neg sized).trans (if_neg (fits data.2))
  | mpUnreachIpv6 withdrawn => exact if_neg (fits data)
  | _ => rfl

/-- The loop carries the attributes before; none of them has the code of a later one. -/
theorem validateAttrs_legible (legible : ∀ attr ∈ list, attr.Legible wide) (distinct : DistinctCodes list)
    (apart : ∀ first ∈ seen, ∀ attr ∈ list, first.typeCode ≠ attr.typeCode) :
    validateAttrs seen (list.map some) = none := by
  induction list generalizing seen with
  | nil => rfl
  | cons attr rest ih =>
    have here := legible attr mem_cons_self
    obtain ⟨later, behind⟩ := pairwise_cons.mp distinct
    have newCode : ¬ seen.any (·.typeCode == attr.typeCode) = true := by
      intro held
      obtain ⟨first, member, same⟩ := any_eq_true.mp held
      exact apart first member attr mem_cons_self (beq_iff_eq.mp same)
    have newType : ¬ (attr.type != .unknown && seen.any (·.type == attr.type)) = true := by
      intro held
      obtain ⟨known, repeated⟩ := Bool.and_eq_true_iff.mp held
      obtain ⟨first, member, same⟩ := any_eq_true.mp repeated
      have kind : first.type = attr.type := beq_iff_eq.mp same
      have known : attr.type ≠ .unknown := bne_iff_ne.mp known
      refine apart first member attr mem_cons_self ?_
      rw [typeCode_of_type known, ← kind]
      exact typeCode_of_type (kind ▸ known)
    rw [map_cons, validateAttrs, if_neg newCode, validAsPathAttr_legible here, if_neg (by decide), if_neg newType,
      validateUpdateMpAttr_legible here]
    refine ih (fun other member => legible other (mem_cons_of_mem _ member)) behind fun first member other inside => ?_
    rcases mem_cons.mp member with rfl | before
    · exact later other inside
    · exact apart first before other (mem_cons_of_mem _ inside)

end Attributes

section Messages

variable {wide : Bool} {bytes : Bytes} {update : UpdateMsg} {type : PAttrType}

/-- The mandatory attributes of a message that its own check accepts. -/
structure Complete (update : UpdateMsg) : Prop where
  distinct : firstDuplicate update.attrs = none
  wellKnown4 : update.nlri.isEmpty = false →
    (update.findAttr .origin).isSome = true ∧ (update.findAttr .asPath).isSome = true ∧
    (update.findAttr .nextHop).isSome = true
  wellKnown6 : mpReachHasNlri update = true → (update.findAttr .origin).isSome = true ∧
    (update.findAttr .asPath).isSome = true

/-- A valid UPDATE has the attributes that its routes need. -/
theorem updateValidate_complete (valid : updateValidate update = .ok ()) : Complete update := by
  have distinct := noDuplicate_of_valid valid
  have present {needed held : Bool} (unmet : ¬ (needed && !held) = true) (need : needed = true) : held = true := by
    subst need
    simpa using unmet
  unfold updateValidate at valid
  dsimp only at valid
  obtain ⟨-, valid⟩ := Work.guard_ok valid
  obtain ⟨-, valid⟩ := Work.guard_ok valid
  obtain ⟨-, valid⟩ := Work.guard_ok valid
  obtain ⟨known4, valid⟩ := Work.guard_ok valid
  obtain ⟨known6, -⟩ := Work.guard_ok valid
  refine ⟨distinct, fun announces => ?_, fun reaches => ?_⟩
  · have all := present known4 (congrArg not announces)
    rw [Bool.and_eq_true_iff, Bool.and_eq_true_iff] at all
    exact ⟨all.1.1, all.1.2, all.2⟩
  · exact Bool.and_eq_true_iff.mp (present known6 reaches)

theorem countType_eq_one (codes : ((update.attrs.filterMap id).map PAttr.typeCode).Nodup) (known : type ≠ .unknown)
    (found : (update.findAttr type).isSome = true) : countType update type = 1 := by
  have least : 0 < countType update type := by
    rw [countType, countP_pos_iff]
    exact find?_isSome.mp found
  exact Nat.le_antisymm (countOf_of_codes codes known) least

/-- A message that the parser accepts passes the structural check of the session. -/
theorem parsed_update_valid (accepted : (updateParseAs4 wide bytes).outcome = .ok update) :
    validateUpdate update = none := by
  have read := (updateParseAs4_yields (.ofOutcome accepted)).legible
  have complete := updateValidate_complete read.valid
  have distinct : DistinctCodes update.present := firstDuplicate_eq_none (read.complete ▸ complete.distinct)
  have codes : ((update.attrs.filterMap id).map PAttr.typeCode).Nodup := pairwise_map.mpr distinct
  have attrs : validateAttrs [] update.attrs = none := by
    rw [read.complete]
    exact validateAttrs_legible read.attrs distinct nofun
  have once (type : PAttrType) (known : type ≠ .unknown) (found : (update.findAttr type).isSome = true) :
      (countType update type == 1) = true := beq_iff_eq.mpr (countType_eq_one codes known found)
  have short {prefixes : List (Prefix 32)} (good : ∀ pfx ∈ prefixes, pfx.len ≤ 32) :
      prefixes.any (32 < ·.len) = false := by
    rw [any_eq_false]
    intro pfx member
    simpa using good pfx member
  unfold validateUpdate
  rw [short read.withdrawn, short read.nlri, attrs]
  dsimp only
  have known4 : ¬ (!update.nlri.isEmpty && !(countType update .origin == 1 && countType update .asPath == 1 &&
      countType update .nextHop == 1)) = true := by
    intro held
    obtain ⟨announces, missing⟩ := Bool.and_eq_true_iff.mp held
    obtain ⟨origin, path, nextHop⟩ := complete.wellKnown4 ((Bool.not_eq_true' _).mp announces)
    rw [once .origin nofun origin, once .asPath nofun path, once .nextHop nofun nextHop] at missing
    cases missing
  have known6 : ¬ (mpReachHasNlri update && !(countType update .origin == 1 && countType update .asPath == 1)) =
      true := by
    intro held
    obtain ⟨reaches, missing⟩ := Bool.and_eq_true_iff.mp held
    obtain ⟨origin, path⟩ := complete.wellKnown6 reaches
    rw [once .origin nofun origin, once .asPath nofun path] at missing
    cases missing
  rw [if_neg (by decide), if_neg known4, if_neg known6]

theorem parsed_update_valid_sample : (updateParseAs4 false sampleBody).outcome = .ok sampleMessage ∧
    validateUpdate sampleMessage = none := by
  have accepted : (updateParseAs4 false sampleBody).outcome = .ok sampleMessage := by decide +kernel
  exact ⟨accepted, parsed_update_valid accepted⟩

end Messages

end Libbgp
