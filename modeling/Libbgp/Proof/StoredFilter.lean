/-
The lookup by type code in the route filters: it decides as a search of the attributes in order does.
-/

import Libbgp.Construction.StoredAttribute
import Libbgp.Library.Keyed

namespace Libbgp

open Library List StoredAttr

/-- The attributes that are there, in order. -/
def StoredAttrs.present (attrs : StoredAttrs) : List StoredAttr := attrs.items.filterMap id

section Scan

variable {A : Type} (items : List (Option A))

theorem any_present (test : A → Bool) : (items.any fun item => item.any test) = (items.filterMap id).any test := by
  induction items with
  | nil => rfl
  | cons item rest ih =>
    cases item with
    | none => simpa using ih
    | some item => simp [ih]

theorem findSome_present {B : Type} (find : A → Option B) :
    (items.findSome? fun item => item.bind find) = (items.filterMap id).findSome? find := by
  induction items with
  | nil => rfl
  | cons item rest ih =>
    cases item with
    | none => simpa using ih
    | some item => simp [findSome?_cons, ih]

end Scan

namespace StoredAttrState

/-- What the loop knows about the attributes that it has seen. -/
structure Knows (state : StoredAttrState) (seen : List StoredAttr) : Prop where
  byType : ∀ code, state.view.byType code = seen.find? fun attr => attr.typeCode == code
  duplicate : state.view.duplicateFound = false → UniqueKeys typeCode seen
  mismatch : state.typeCodeMismatch = false →
    ∀ attr ∈ seen, attr.expectedTypeCode ≠ 0 → attr.typeCode = attr.expectedTypeCode
  asPath : state.hasAsPathByType = false → ∀ attr ∈ seen, attr.type ≠ some .asPath
  as4Path : state.hasAs4PathByType = false → ∀ attr ∈ seen, attr.type ≠ some .as4Path

theorem knows_init : Knows .init [] where
  byType _ := rfl
  duplicate _ := nodup_nil
  mismatch _ _ absent := nomatch absent
  asPath _ _ absent := nomatch absent
  as4Path _ _ absent := nomatch absent

/-- One more attribute is known to the index. -/
theorem Knows.add {state : StoredAttrState} {seen : List StoredAttr} (knows : Knows state seen) (attr : StoredAttr) :
    Knows (state.add (some attr)) (seen ++ [attr]) where
  byType code := by
    rw [find?_append, ← knows.byType code, StoredAttrState.add]
    simp only [AttrView.add]
    by_cases held : (state.view.byType attr.typeCode).isSome = true
    · rw [if_pos held]
      by_cases same : attr.typeCode = code
      · obtain ⟨first, found⟩ := Option.isSome_iff_exists.mp held
        rw [← same, found, Option.some_or]
      · simp [same]
    · rw [if_neg held]
      by_cases same : attr.typeCode = code
      · subst same
        rw [Option.not_isSome_iff_eq_none.mp held]
        simp
      · simp only [Function.update_of_ne (Ne.symm same)]
        simp [same]
  duplicate := by
    simp only [StoredAttrState.add, AttrView.add]
    split
    · intro impossible
      cases impossible
    · rename_i fresh
      intro clean
      rw [Option.not_isSome_iff_eq_none, knows.byType, find?_eq_none] at fresh
      rw [UniqueKeys, map_append, nodup_append']
      refine ⟨knows.duplicate clean, nodup_singleton _, ?_⟩
      rintro code earlier later
      obtain ⟨other, member, rfl⟩ := mem_map.mp earlier
      have same : other.typeCode = attr.typeCode := by simpa using later
      exact fresh other member (by simp [same])
  mismatch := by
    simp only [StoredAttrState.add, Bool.or_eq_false_iff, Bool.and_eq_false_iff, bne_eq_false_iff_eq]
    rintro ⟨clean, fits⟩ other member expected
    rcases mem_append.mp member with old | new
    · exact knows.mismatch clean other old expected
    · rw [mem_singleton.mp new] at expected ⊢
      exact fits.resolve_left expected
  asPath := by
    simp only [StoredAttrState.add, Bool.or_eq_false_iff, beq_eq_false_iff_ne]
    rintro ⟨clean, differs⟩ other member
    rcases mem_append.mp member with old | new
    · exact knows.asPath clean other old
    · rw [mem_singleton.mp new]
      exact differs
  as4Path := by
    simp only [StoredAttrState.add, Bool.or_eq_false_iff, beq_eq_false_iff_ne]
    rintro ⟨clean, differs⟩ other member
    rcases mem_append.mp member with old | new
    · exact knows.as4Path clean other old
    · rw [mem_singleton.mp new]
      exact differs

/-- The index knows every attribute that is present. -/
theorem knows_build (attrs : StoredAttrs) : Knows (build attrs) attrs.present := by
  have loop : ∀ (items : List (Option StoredAttr)) (state : StoredAttrState) (seen : List StoredAttr),
      Knows state seen → Knows (items.foldl StoredAttrState.add state) (seen ++ items.filterMap id) := by
    intro items
    induction items with
    | nil =>
      intro state seen knows
      simpa using knows
    | cons item rest ih =>
      intro state seen knows
      cases item with
      | none => exact ih state seen knows
      | some attr => simpa using ih _ _ (knows.add attr)
  exact loop attrs.items .init [] knows_init

end StoredAttrState

namespace StoredAttrState

variable {attrs : StoredAttrs} {attr : StoredAttr}

theorem expected_of_contains {asn : UInt32} (contains : attr.asPathContains asn = true) :
    (attr.expectedTypeCode = 2 ∧ attr.type = some .asPath) ∨
      (attr.expectedTypeCode = 17 ∧ attr.type = some .as4Path) := by
  unfold asPathContains at contains
  unfold expectedTypeCode type
  split at contains
  · rename_i data
    simp [data]
  · rename_i data
    simp [data]
  · cases contains

theorem expected_of_origin (answers : attr.asPathOriginAsn ≠ none) :
    (attr.expectedTypeCode = 2 ∧ attr.type = some .asPath) ∨
      (attr.expectedTypeCode = 17 ∧ attr.type = some .as4Path) := by
  unfold asPathOriginAsn at answers
  unfold expectedTypeCode type
  split at answers
  · rename_i data
    simp [data]
  · rename_i data
    simp [data]
  · exact absurd rfl answers

theorem expected_of_community {community : UInt32} (contains : attr.communityContains community = true) :
    attr.expectedTypeCode = 8 := by
  unfold communityContains at contains
  unfold expectedTypeCode
  split at contains
  · rename_i data
    simp [data]
  · cases contains

/-- What the lookup by type code rests on. -/
structure Indexed (attrs : StoredAttrs) : Prop where
  unique : UniqueKeys typeCode attrs.present
  fits : ∀ attr ∈ attrs.present, attr.expectedTypeCode ≠ 0 → attr.typeCode = attr.expectedTypeCode

theorem indexed_of_scans (direct : (build attrs).scans = false) : Indexed attrs := by
  rw [scans, Bool.or_eq_false_iff] at direct
  exact ⟨(knows_build attrs).duplicate direct.1, (knows_build attrs).mismatch direct.2⟩

theorem found_any {present : List StoredAttr} (unique : UniqueKeys typeCode present) (test : StoredAttr → Bool)
    (code : UInt8) :
    (present.find? fun attr => attr.typeCode == code).any test = true ↔
      ∃ attr ∈ present, attr.typeCode = code ∧ test attr = true := by
  simp only [Option.any_eq_true, unique.find_eq_some_iff, and_assoc]

/-- The index finds the AS numbers that a scan finds. -/
theorem Indexed.hasAsn (indexed : Indexed attrs) (asn : UInt32) :
    (((build attrs).view.byType 2).any (·.asPathContains asn) ||
      ((build attrs).view.byType 17).any (·.asPathContains asn)) =
      attrs.haveAsn asn := by
  rw [StoredAttrs.haveAsn, any_present, (knows_build attrs).byType, (knows_build attrs).byType, Bool.eq_iff_iff,
    Bool.or_eq_true, found_any indexed.unique, found_any indexed.unique, any_eq_true]
  constructor
  · rintro (⟨attr, member, -, contains⟩ | ⟨attr, member, -, contains⟩)
    · exact ⟨attr, member, contains⟩
    · exact ⟨attr, member, contains⟩
  · rintro ⟨attr, member, contains⟩
    have fits := indexed.fits attr member
    rcases expected_of_contains contains with ⟨code, -⟩ | ⟨code, -⟩
    · exact .inl ⟨attr, member, by simpa [code] using fits, contains⟩
    · exact .inr ⟨attr, member, by simpa [code] using fits, contains⟩

theorem Indexed.hasCommunity (indexed : Indexed attrs) (community : UInt32) :
    ((build attrs).view.byType 8).any (·.communityContains community) = attrs.haveCommunity community := by
  rw [StoredAttrs.haveCommunity, any_present, (knows_build attrs).byType, Bool.eq_iff_iff, found_any indexed.unique,
    any_eq_true]
  constructor
  · rintro ⟨attr, member, -, contains⟩
    exact ⟨attr, member, contains⟩
  · rintro ⟨attr, member, contains⟩
    have fits := indexed.fits attr member
    exact ⟨attr, member, by simpa [expected_of_community contains] using fits, contains⟩

/-- Where only one code can answer, the other one has no origin to offer. -/
theorem Indexed.origin_of_code (indexed : Indexed attrs) {code other : UInt8} (different : other ≠ code)
    (only : ∀ attr ∈ attrs.present, attr.asPathOriginAsn ≠ none → attr.typeCode = code) :
    attrs.originAsn = ((build attrs).view.byType code).bind (·.asPathOriginAsn) ∧
      ((build attrs).view.byType other).bind (·.asPathOriginAsn) = none := by
  rw [(knows_build attrs).byType, (knows_build attrs).byType]
  refine ⟨?_, ?_⟩
  · rw [StoredAttrs.originAsn, findSome_present]
    exact indexed.unique.findSome_of_key only
  · rcases search : attrs.present.find? (fun attr => attr.typeCode == other) with _ | found
    · rw [search, Option.bind_none]
    · obtain ⟨member, place⟩ := indexed.unique.find_eq_some_iff.mp search
      rw [search, Option.bind_some]
      by_contra answers
      exact different (place.symm.trans (only found member answers))

/-- The index finds the origin that a scan finds. -/
theorem Indexed.originAsn (indexed : Indexed attrs)
    (single : (∀ attr ∈ attrs.present, attr.type ≠ some .asPath) ∨ ∀ attr ∈ attrs.present, attr.type ≠ some .as4Path) :
    (((build attrs).view.byType 2).bind (·.asPathOriginAsn)).or
      (((build attrs).view.byType 17).bind (·.asPathOriginAsn)) =
      attrs.originAsn := by
  rcases single with narrow | wide
  · have only : ∀ attr ∈ attrs.present, attr.asPathOriginAsn ≠ none → attr.typeCode = 17 := by
      intro attr member answers
      rcases expected_of_origin answers with ⟨-, kind⟩ | ⟨code, -⟩
      · exact absurd kind (narrow attr member)
      · simpa [code] using indexed.fits attr member
    obtain ⟨found, silent⟩ := @Indexed.origin_of_code attrs indexed 17 2 (by decide) only
    rw [silent, found, Option.none_or]
  · have only : ∀ attr ∈ attrs.present, attr.asPathOriginAsn ≠ none → attr.typeCode = 2 := by
      intro attr member answers
      rcases expected_of_origin answers with ⟨code, -⟩ | ⟨-, kind⟩
      · simpa [code] using indexed.fits attr member
      · exact absurd kind (wide attr member)
    obtain ⟨found, silent⟩ := @Indexed.origin_of_code attrs indexed 2 17 (by decide) only
    rw [silent, found, Option.or_none]

/-- The three questions have the answers of a search in order, whatever the attributes. -/
theorem answers_eq_scan (attrs : StoredAttrs) :
    (build attrs).hasAsn attrs = attrs.haveAsn ∧ (build attrs).originAsn attrs = attrs.originAsn ∧
      (build attrs).hasCommunity attrs = attrs.haveCommunity := by
  refine ⟨funext fun asn => ?_, ?_, funext fun community => ?_⟩
  · rw [StoredAttrState.hasAsn]
    split
    · rfl
    · rename_i direct
      exact (indexed_of_scans (Bool.not_eq_true _ ▸ direct)).hasAsn asn
  · rw [StoredAttrState.originAsn]
    split
    · rfl
    · rename_i direct
      rw [Bool.not_eq_true, Bool.or_eq_false_iff, Bool.and_eq_false_iff] at direct
      exact (indexed_of_scans direct.1).originAsn
        (direct.2.imp (knows_build attrs).asPath (knows_build attrs).as4Path)
  · rw [StoredAttrState.hasCommunity]
    split
    · rfl
    · rename_i direct
      exact (indexed_of_scans (Bool.not_eq_true _ ▸ direct)).hasCommunity community

end StoredAttrState

namespace StoredRule

variable {af : Af}

/-- The rule matches when its condition is evaluated by a search of the attributes in order. -/
def PlainlyMatches (rule : StoredRule) {af : Af} (pfx : Prefix af.family.width) (attrs : StoredAttrs) : Prop :=
  ∃ condition, rule.matchType = some condition ∧
    condition.holds attrs.haveAsn attrs.originAsn attrs.haveCommunity pfx = true

/-- The decision of the last rule that matches, or the default where none does. -/
inductive Decides {af : Af} (pfx : Prefix af.family.width) (attrs : StoredAttrs) (fallback : FilterDecision) :
    List StoredRule → FilterDecision → Prop
  | rule (before : List StoredRule) (rule : StoredRule) (after : List StoredRule)
      (matched : rule.PlainlyMatches pfx attrs) (last : ∀ later ∈ after, ¬ later.PlainlyMatches pfx attrs) :
      Decides pfx attrs fallback (before ++ rule :: after) rule.decision
  | fallback {rules : List StoredRule} (none : ∀ rule ∈ rules, ¬ rule.PlainlyMatches pfx attrs) :
      Decides pfx attrs fallback rules fallback

theorem matches_iff (rule : StoredRule) (pfx : Prefix af.family.width) (attrs : StoredAttrs) :
    rule.matches pfx (.build attrs) attrs = true ↔ rule.PlainlyMatches pfx attrs := by
  obtain ⟨asn, origin, community⟩ := StoredAttrState.answers_eq_scan attrs
  rw [StoredRule.matches, asn, origin, community, Option.any_eq_true, PlainlyMatches]

/-- The filter decides as the last rule that matches in a plain search does; the lookup by type code never
changes the result. -/
theorem applyRoute_decides (rules : List StoredRule) (pfx : Prefix af.family.width) (attrs : StoredAttrs)
    (fallback : FilterDecision) : Decides pfx attrs fallback rules (applyRoute rules pfx attrs fallback) := by
  rw [applyRoute]
  rcases search : rules.reverse.find? (fun rule => rule.matches pfx (.build attrs) attrs) with _ | rule
  · rw [search]
    refine .fallback fun rule member matched => ?_
    have missing := find?_eq_none.mp search rule (mem_reverse.mpr member)
    exact missing ((rule.matches_iff pfx attrs).mpr matched)
  · obtain ⟨matched, newer, older, shape, fails⟩ := find?_eq_some_iff_append.mp search
    have order : rules = older.reverse ++ rule :: newer.reverse := by
      rw [← reverse_reverse rules, shape]
      simp
    rw [search, order]
    refine .rule _ rule _ ((rule.matches_iff pfx attrs).mp matched) fun later member plain => ?_
    have unmatched := fails later (mem_reverse.mp member)
    rw [(later.matches_iff pfx attrs).mpr plain] at unmatched
    cases unmatched

end StoredRule

section Decoded

/-! A decoded attribute answers as its stored form does, so the two models of the filter agree. -/

variable (attr : PAttr) (attrs : List (Option PAttr))

@[simp] theorem stored_asPathContains (asn : UInt32) : attr.stored.asPathContains asn = attr.asPathContains asn := by
  have segments : ∀ path : List AsPathSegment,
      segmentsContain asn (path.map AsPathSegment.stored) = path.any fun segment => segment.asns.contains asn := by
    intro path
    induction path with
    | nil => rfl
    | cons segment rest ih => simp [segmentsContain, AsPathSegment.stored, Block.broken, Block.items, ih]
  unfold asPathContains PAttr.asPathContains PAttr.stored
  cases attr.data with
  | asPath path is4b | as4Path path is4b => simp [PAttrData.stored, Block.broken, Block.items, segments]
  | _ => rfl

@[simp] theorem stored_asPathOriginAsn : attr.stored.asPathOriginAsn = attr.asPathOriginAsn := by
  have segments : ∀ (path : List AsPathSegment) (found : Option UInt32),
      segmentsOrigin found (path.map AsPathSegment.stored) = path.foldl (fun origin segment =>
        if segment.type = 2 then segment.asns.getLast?.or origin else origin) found := by
    intro path
    induction path with
    | nil => exact fun _ => rfl
    | cons segment rest ih =>
      intro found
      simp only [map_cons, segmentsOrigin, foldl_cons, ih, AsPathSegment.stored, Block.count,
        Block.broken, Block.items]
      by_cases sequence : segment.type = 2
      · rcases segment.asns.eq_nil_or_concat with empty | ⟨init, last, shape⟩
        · simp [sequence, empty]
        · simp [sequence, shape]
      · simp [sequence]
  unfold asPathOriginAsn PAttr.asPathOriginAsn PAttr.stored
  cases attr.data with
  | asPath path is4b | as4Path path is4b => simp [PAttrData.stored, Block.broken, Block.items, segments]
  | _ => rfl

@[simp] theorem stored_communityContains (community : UInt32) :
    attr.stored.communityContains community = attr.communityContains community := by
  unfold communityContains PAttr.communityContains PAttr.stored
  cases attr.data with
  | community values => simp [PAttrData.stored, Block.broken, Block.items]
  | _ => rfl

@[simp] theorem stored_expectedTypeCode : attr.stored.expectedTypeCode = attr.expectedTypeCode := by
  unfold expectedTypeCode PAttr.expectedTypeCode PAttr.stored PAttr.type
  cases attr.data <;> rfl

@[simp] theorem stored_type : attr.stored.type = some attr.type := by
  unfold type PAttr.stored PAttr.type
  cases attr.data <;> rfl

@[simp] theorem stored_typeCode : attr.stored.typeCode = attr.typeCode := rfl

@[simp] theorem present_storedAttrs : (storedAttrs attrs).present = (attrs.filterMap id).map PAttr.stored := by
  rw [StoredAttrs.present, storedAttrs, Block.items]
  induction attrs with
  | nil => rfl
  | cons attr rest ih =>
    cases attr with
    | none => simpa using ih
    | some attr => simpa using ih

theorem indexed_of_decoded (direct : (filterAttrStateBuild attrs).scans = false) :
    StoredAttrState.Indexed (storedAttrs attrs) := by
  simp only [FilterAttrState.scans, filterAttrStateBuild, Bool.or_eq_false_iff, Bool.not_eq_false', decide_eq_true_eq,
    any_eq_false, Bool.and_eq_true, bne_iff_ne, not_and, not_not] at direct
  refine ⟨?_, ?_⟩
  · rw [UniqueKeys, present_storedAttrs, map_map]
    exact direct.1
  · rw [present_storedAttrs]
    intro stored member expected
    obtain ⟨attr, inside, rfl⟩ := mem_map.mp member
    rw [stored_expectedTypeCode] at expected ⊢
    exact direct.2 attr inside expected

theorem byType_storedAttrs (code : UInt8) :
    (StoredAttrState.build (storedAttrs attrs)).view.byType code = (attrViewGet attrs code).map PAttr.stored := by
  rw [(StoredAttrState.knows_build _).byType, present_storedAttrs, find?_map, attrViewGet]
  rfl

theorem haveAsn_storedAttrs (asn : UInt32) :
    (storedAttrs attrs).haveAsn asn = (attrs.filterMap id).any (·.asPathContains asn) := by
  rw [StoredAttrs.haveAsn, any_present, ← StoredAttrs.present, present_storedAttrs, any_map]
  simp only [Function.comp_def, stored_asPathContains]

theorem haveCommunity_storedAttrs (community : UInt32) :
    (storedAttrs attrs).haveCommunity community = (attrs.filterMap id).any (·.communityContains community) := by
  rw [StoredAttrs.haveCommunity, any_present, ← StoredAttrs.present, present_storedAttrs, any_map]
  simp only [Function.comp_def, stored_communityContains]

theorem originAsn_storedAttrs :
    (storedAttrs attrs).originAsn = (attrs.filterMap id).findSome? PAttr.asPathOriginAsn := by
  rw [StoredAttrs.originAsn, findSome_present, ← StoredAttrs.present, present_storedAttrs, findSome?_map]
  simp only [Function.comp_def, stored_asPathOriginAsn]

/-- Index and scan answer the same for decoded attributes. -/
theorem decoded_answers :
    (filterAttrStateBuild attrs).hasAsn = (storedAttrs attrs).haveAsn ∧
      (filterAttrStateBuild attrs).originAsn = (storedAttrs attrs).originAsn ∧
      (filterAttrStateBuild attrs).hasCommunity = (storedAttrs attrs).haveCommunity := by
  have lookup : ∀ (code : UInt8) (test : StoredAttr → Bool),
    (attrViewGet attrs code).any (fun attr => test attr.stored) =
      ((StoredAttrState.build (storedAttrs attrs)).view.byType code).any test := by
    intro code test
    simp only [byType_storedAttrs, Option.any_map]
  refine ⟨funext fun asn => ?_, ?_, funext fun community => ?_⟩
  · rw [FilterAttrState.hasAsn]
    split
    · rw [haveAsn_storedAttrs]
      rfl
    · rename_i direct
      rw [← (indexed_of_decoded attrs (Bool.not_eq_true _ ▸ direct)).hasAsn, ← lookup, ← lookup]
      simp only [stored_asPathContains]
      rfl
  · rw [FilterAttrState.originAsn]
    split
    · rw [originAsn_storedAttrs]
      rfl
    · rename_i direct
      rw [Bool.not_eq_true, Bool.or_eq_false_iff, Bool.and_eq_false_iff] at direct
      have absent : ∀ kind, ((attrs.filterMap id).any fun attr => attr.type == kind) = false →
          ∀ stored ∈ (storedAttrs attrs).present, stored.type ≠ some kind := by
        intro kind none stored member
        rw [present_storedAttrs] at member
        obtain ⟨attr, inside, rfl⟩ := mem_map.mp member
        have different := any_eq_false.mp none attr inside
        simpa using different
      rw [← (indexed_of_decoded attrs direct.1).originAsn (direct.2.imp (absent _) (absent _)), byType_storedAttrs,
        byType_storedAttrs, Option.bind_map, Option.bind_map]
      simp only [Function.comp_def, stored_asPathOriginAsn]
      rfl
  · rw [FilterAttrState.hasCommunity]
    split
    · rw [haveCommunity_storedAttrs]
      rfl
    · rename_i direct
      rw [← (indexed_of_decoded attrs (Bool.not_eq_true _ ▸ direct)).hasCommunity, ← lookup]
      simp only [stored_communityContains]
      rfl

/-- The filter over decoded routes is the filter over their stored form. -/
theorem applyRoute_stored (filter : Filter) {af : Af} (route : Route af.family.width) (fallback : FilterDecision) :
    StoredRule.applyRoute (filter.map FilterRule.stored) route.pfx (storedAttrs route.attrs) fallback =
      filter.applyRoute route fallback := by
  obtain ⟨asn, origin, community⟩ := decoded_answers route.attrs
  obtain ⟨plainAsn, plainOrigin, plainCommunity⟩ := StoredAttrState.answers_eq_scan (storedAttrs route.attrs)
  have agree : ∀ rule : FilterRule,
    rule.stored.matches route.pfx (.build (storedAttrs route.attrs)) (storedAttrs route.attrs) =
      rule.matches af route.pfx (filterAttrStateBuild route.attrs) := by
    intro rule
    rw [StoredRule.matches, plainAsn, plainOrigin, plainCommunity, ← asn, ← origin, ← community, FilterRule.matches]
    rw [FilterRule.stored, Option.any_some]
    rcases rule.matchType with ⟨_ | _, kind, own⟩ | asn | asn | asn | asn | community | community | _
    all_goals rfl
  rw [StoredRule.applyRoute, Filter.applyRoute, ← map_reverse, find?_map, Option.map_map]
  simp only [Function.comp_def, agree]
  rfl

end Decoded

end Libbgp
