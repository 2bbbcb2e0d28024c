/-
A route that becomes a message and is read back becomes the same message, and a filter decides the same
about it.
-/

import Libbgp.Construction.Filter
import Libbgp.Proof.Export

namespace Libbgp

open Library List UpdateMsg

/-- The attributes that a filter looks at. -/
def PAttr.filtered (attr : PAttr) : Bool := attr.expectedTypeCode != 0

def filteredAttrs (attrs : List (Option PAttr)) : List PAttr := (attrs.filterMap id).filter PAttr.filtered

section Filtering

variable {attrs first second : List (Option PAttr)} {attr : PAttr}

/-- A decoded attribute has the type code of its kind. -/
theorem PAttr.typeCode_expected (filtered : attr.filtered = true) : attr.typeCode = attr.expectedTypeCode := by
  obtain ⟨flags, data⟩ := attr
  cases data <;> first | rfl | simp [PAttr.filtered, PAttr.expectedTypeCode, PAttr.type] at filtered

/-- An unknown attribute never has a type code that a filter looks up. -/
theorem PAttr.filtered_of_typeCode (code : attr.typeCode = 2 ∨ attr.typeCode = 17 ∨ attr.typeCode = 8) :
    attr.filtered = true := by
  obtain ⟨flags, data⟩ := attr
  cases data with
  | unknown number value undecoded =>
    have decoded : number ∈ decodedCodes := by
      rcases code with same | same | same <;> (rw [show number = _ from same]; decide)
    exact absurd decoded undecoded
  | _ => simp [PAttr.typeCode, PAttr.filtered, PAttr.expectedTypeCode, PAttr.type] at code ⊢

theorem attrViewGet_filtered {code : UInt8} (looked : code = 2 ∨ code = 17 ∨ code = 8) :
    attrViewGet attrs code = (filteredAttrs attrs).find? fun attr => attr.typeCode == code := by
  rw [attrViewGet, filteredAttrs, find?_filter]
  congr 1
  funext attr
  by_cases same : attr.typeCode = code
  · have filtered : attr.filtered = true := PAttr.filtered_of_typeCode (same ▸ looked)
    simp [same, filtered]
  · simp [same]

theorem any_filtered {test : PAttr → Bool} (only : ∀ attr, test attr = true → attr.filtered = true) :
    (attrs.filterMap id).any test = (filteredAttrs attrs).any test := by
  rw [filteredAttrs, any_filter]
  congr 1
  funext attr
  cases passes : test attr with
  | true => simp [only attr passes]
  | false => simp

theorem PAttr.originAsn_filtered (unread : attr.filtered = false) : attr.asPathOriginAsn = none := by
  obtain ⟨flags, data⟩ := attr
  cases data <;> first | rfl | simp [PAttr.filtered, PAttr.expectedTypeCode, PAttr.type] at unread

theorem findSome_filtered :
    (attrs.filterMap id).findSome? PAttr.asPathOriginAsn = (filteredAttrs attrs).findSome? PAttr.asPathOriginAsn := by
  rw [filteredAttrs]
  induction attrs.filterMap id with
  | nil => rfl
  | cons attr rest ih =>
    cases read : attr.filtered with
    | true => rw [filter_cons_of_pos read, findSome?_cons, findSome?_cons, ih]
    | false =>
      rw [filter_cons_of_neg (by simp [read]), findSome?_cons, PAttr.originAsn_filtered read, ih]

/-- Where no type code occurs twice, the state is about the attributes that a filter looks at. -/
theorem filterAttrState_scans (codes : ((attrs.filterMap id).map PAttr.typeCode).Nodup) :
    (filterAttrStateBuild attrs).scans = false := by
  have agree : ((attrs.filterMap id).any fun attr =>
      attr.expectedTypeCode != 0 && attr.typeCode != attr.expectedTypeCode) = false := by
    rw [any_eq_false]
    intro attr _ mismatch
    rw [Bool.and_eq_true] at mismatch
    exact absurd (PAttr.typeCode_expected mismatch.1) (by simpa using mismatch.2)
  rw [FilterAttrState.scans, filterAttrStateBuild]
  dsimp only
  rw [agree, decide_eq_true codes]
  rfl

/-- A rule decides by the prefix and the attributes that a filter looks at. -/
theorem FilterRule.matches_congr (rule : FilterRule) (af : Af) (pfx : Prefix af.family.width)
    (firstCodes : ((first.filterMap id).map PAttr.typeCode).Nodup)
    (secondCodes : ((second.filterMap id).map PAttr.typeCode).Nodup)
    (same : filteredAttrs first = filteredAttrs second) :
    rule.matches af pfx (filterAttrStateBuild first) = rule.matches af pfx (filterAttrStateBuild second) := by
  have asn : ∀ asn, (filterAttrStateBuild first).hasAsn asn = (filterAttrStateBuild second).hasAsn asn := by
    intro asn
    rw [FilterAttrState.hasAsn, FilterAttrState.hasAsn, filterAttrState_scans firstCodes,
      filterAttrState_scans secondCodes]
    simp only [Bool.false_eq_true, if_false, FilterAttrState.asPath, FilterAttrState.as4Path, filterAttrStateBuild,
      attrViewGet_filtered (.inl rfl), attrViewGet_filtered (.inr (.inl rfl)), same]
  have community : ∀ value, (filterAttrStateBuild first).hasCommunity value =
      (filterAttrStateBuild second).hasCommunity value := by
    intro value
    rw [FilterAttrState.hasCommunity, FilterAttrState.hasCommunity, filterAttrState_scans firstCodes,
      filterAttrState_scans secondCodes]
    simp only [Bool.false_eq_true, if_false, filterAttrStateBuild, attrViewGet_filtered (.inr (.inr rfl)), same]
  have path : ∀ type : PAttrType, type = .asPath ∨ type = .as4Path →
      ((first.filterMap id).any fun attr => attr.type == type) =
        (second.filterMap id).any fun attr => attr.type == type := by
    intro type kind
    have only : ∀ attr : PAttr, (attr.type == type) = true → attr.filtered = true := by
      intro attr found
      rw [PAttr.filtered, PAttr.expectedTypeCode, beq_iff_eq.mp found]
      rcases kind with rfl | rfl <;> rfl
    rw [any_filtered only, any_filtered only, same]
  have origin : (filterAttrStateBuild first).originAsn = (filterAttrStateBuild second).originAsn := by
    rw [FilterAttrState.originAsn, FilterAttrState.originAsn, filterAttrState_scans firstCodes,
      filterAttrState_scans secondCodes]
    simp only [FilterAttrState.asPath, FilterAttrState.as4Path, filterAttrStateBuild, path .asPath (.inl rfl),
      path .as4Path (.inr rfl), findSome_filtered, attrViewGet_filtered (.inl rfl),
      attrViewGet_filtered (.inr (.inl rfl)), same]
  obtain ⟨kind, decision⟩ := rule
  cases kind with
  | network table kind network => cases table <;> cases af <;> rfl
  | asPathContains number => exact asn number
  | asPathNotContains number => exact congrArg Bool.not (asn number)
  | asPathOrigin number => exact congrArg (fun origin => origin.any (· == number)) origin
  | asPathNotOrigin number => exact congrArg (fun origin => origin.any (· != number)) origin
  | communityContains value => exact community value
  | communityNotContains value => exact congrArg Bool.not (community value)
  | any => rfl

theorem Filter.permits_congr (filter : Filter) {af : Af} {route other : Route af.family.width}
    (pfx : other.pfx = route.pfx) (routeCodes : ((route.attrs.filterMap id).map PAttr.typeCode).Nodup)
    (otherCodes : ((other.attrs.filterMap id).map PAttr.typeCode).Nodup)
    (same : filteredAttrs other.attrs = filteredAttrs route.attrs) : filter.permits other = filter.permits route := by
  have rules : (fun rule : FilterRule => rule.matches af other.pfx (filterAttrStateBuild other.attrs)) =
      fun rule => rule.matches af route.pfx (filterAttrStateBuild route.attrs) := by
    funext rule
    rw [pfx, rule.matches_congr af route.pfx otherCodes routeCodes same]
  simp only [Filter.permits, Filter.applyRoute, rules]

end Filtering

section Attributes

variable {af : Af} {attrs : List (Option PAttr)} {attr : PAttr} {nextHop : BitVec 32}

theorem filterMap_filter_any (test : PAttr → Bool) :
    (attrs.filter fun attr => attr.any test).filterMap id = (attrs.filterMap id).filter test := by
  induction attrs with
  | nil => rfl
  | cons head rest ih =>
    cases head with
    | none => simpa using ih
    | some attr =>
      rw [filterMap_cons_some (rfl : id (some attr) = some attr), filter_cons, filter_cons, ← ih]
      cases passes : test attr <;> simp [passes]

theorem filtered_exports (af : Af) (filtered : attr.filtered = true) : exportsAttr af attr = true := by
  obtain ⟨flags, data⟩ := attr
  cases data <;> cases af <;> first | rfl | simp [PAttr.filtered, PAttr.expectedTypeCode, PAttr.type] at filtered

theorem filteredAttrs_kept (af : Af) : filteredAttrs (keptAttrs af attrs) = filteredAttrs attrs := by
  rw [filteredAttrs, keptAttrs, filterMap_filter_any, filter_filter, filteredAttrs]
  congr 1
  funext attr
  cases read : attr.filtered with
  | true => simp [filtered_exports af read]
  | false => simp

/-- A filter does not see the next hop. -/
theorem filteredAttrs_replace : filteredAttrs (replaceNextHop nextHop attrs) = filteredAttrs attrs := by
  fun_induction replaceNextHop nextHop attrs with
  | case1 => rfl
  | case2 rest ih => exact ih
  | case3 attr rest hop =>
    have unread : attr.filtered = false := by rw [PAttr.filtered, PAttr.expectedTypeCode, hop]; rfl
    simp only [filteredAttrs, filterMap_cons_some (rfl : id (some _) = some _)]
    rw [filter_cons_of_neg (show ¬ PAttr.filtered ⟨attr.flags, .nextHop nextHop⟩ = true from nofun),
      filter_cons_of_neg (by simp [unread])]
  | case4 attr rest other ih =>
    simp only [filteredAttrs, filterMap_cons_some (rfl : id (some _) = some _), filter_cons] at ih ⊢
    rw [ih]

theorem PAttr.typeCode_nextHop : attr.typeCode = 3 ↔ attr.type = .nextHop := by
  obtain ⟨flags, data⟩ := attr
  cases data with
  | unknown code value undecoded =>
    have different : code ≠ 3 := fun same => undecoded (by rw [same]; decide)
    simp [PAttr.typeCode, PAttr.type, different]
  | _ => simp [PAttr.typeCode, PAttr.type]

theorem typeCodes_replace : ((replaceNextHop nextHop attrs).filterMap id).map PAttr.typeCode =
    (attrs.filterMap id).map PAttr.typeCode := by
  fun_induction replaceNextHop nextHop attrs with
  | case1 => rfl
  | case2 rest ih => exact ih
  | case3 attr rest hop =>
    simp only [filterMap_cons_some (rfl : id (some _) = some _), map_cons, PAttr.typeCode_nextHop.mpr hop]
    rfl
  | case4 attr rest other ih => simpa using ih

theorem replaceNextHop_again :
    replaceNextHop nextHop (replaceNextHop nextHop attrs) =
      replaceNextHop nextHop attrs := by
  fun_induction replaceNextHop nextHop attrs with
  | case1 => rfl
  | case2 rest ih => rw [replaceNextHop, ih]
  | case3 attr rest hop => simp [replaceNextHop, PAttr.type]
  | case4 attr rest other ih => rw [replaceNextHop, if_neg other, ih]

/-- Writing the next hop keeps the kinds of attributes. -/
theorem types_replaceNextHop :
    (replaceNextHop nextHop attrs).map (Option.map PAttr.type) = attrs.map (Option.map PAttr.type) := by
  fun_induction replaceNextHop nextHop attrs with
  | case1 => rfl
  | case2 rest ih => rw [map_cons, ih, map_cons]
  | case3 attr rest hop => rw [map_cons, map_cons, Option.map_some, Option.map_some, hop]; rfl
  | case4 attr rest other ih => rw [map_cons, ih, map_cons]

theorem exists_replaced {type : PAttrType} : (∃ attr, some attr ∈ replaceNextHop nextHop attrs ∧ attr.type = type) ↔
    ∃ attr, some attr ∈ attrs ∧ attr.type = type := by
  have listed (slots : List (Option PAttr)) : (∃ attr, some attr ∈ slots ∧ attr.type = type) ↔
      some type ∈ slots.map (Option.map PAttr.type) := by
    simp
  rw [listed, types_replaceNextHop, listed]

theorem none_notMem_replaceNextHop (present : none ∉ attrs) : none ∉ replaceNextHop nextHop attrs := by
  fun_induction replaceNextHop nextHop attrs with
  | case1 => exact present
  | case2 rest ih => exact absurd mem_cons_self present
  | case3 head rest hop => simpa using present
  | case4 head rest other ih => simpa using ih (by simpa using present)

/-- A replaced next hop is the one that is read. -/
theorem nextHopOf_replaced {withdrawn nlri : List (Prefix 32)}
    (hop : ∃ attr, some attr ∈ attrs ∧ attr.type = .nextHop) :
    nextHopOf ⟨withdrawn, replaceNextHop nextHop attrs, nlri⟩ = nextHop := by
  obtain ⟨attr, member, type⟩ := hop
  rw [nextHopOf, attrViewGet]
  fun_induction replaceNextHop nextHop attrs with
  | case1 => cases member
  | case2 rest ih => exact ih (by simpa using member)
  | case3 head rest hop => simp [PAttr.typeCode]
  | case4 head rest other ih =>
    have code : (head.typeCode == 3) = false := by
      rw [beq_eq_false_iff_ne]
      exact fun same => other (PAttr.typeCode_nextHop.mp same)
    have later : some attr ∈ rest := by
      rcases mem_cons.mp member with same | later
      · exact absurd (Option.some.inj same ▸ type) other
      · exact later
    simp only [filterMap_cons_some (rfl : id (some _) = some _), find?_cons, code]
    exact ih later

end Attributes

/-- A route that was read back from the message of another one. -/
structure Returned {af : Af} (route back : Route af.family.width) : Prop where
  pfx : back.pfx = route.pfx
  nextHop : back.nextHop = route.nextHop
  linkLocal : af = .ipv6 → back.nextHopLinklocal = route.nextHopLinklocal
  attrs : back.attrs = routeAttrs (exportedMessage af route).attrs af

section Returning

variable {af : Af} {route back : Route af.family.width} {type : PAttrType} {alloc : Allocator}

theorem routeAttrs_exported4 {route : Route Af.ipv4.family.width} :
    routeAttrs (exportedMessage .ipv4 route).attrs .ipv4 =
      replaceNextHop route.nextHop (keptAttrs .ipv4 route.attrs) := rfl

theorem routeAttrs_exported6 {route : Route Af.ipv6.family.width} :
    routeAttrs (exportedMessage .ipv6 route).attrs .ipv6 = keptAttrs .ipv6 route.attrs := by
  have again : (keptAttrs .ipv6 route.attrs).filter (fun attr => attr.any ipv6RouteAttr) =
      keptAttrs .ipv6 route.attrs :=
    filter_eq_self.mpr fun _ member => (mem_filter.mp member).2
  rw [exportedMessage, routeAttrs, filter_append, again]
  exact append_nil _

theorem keptCodes (codes : ((route.attrs.filterMap id).map PAttr.typeCode).Nodup) :
    (((keptAttrs af route.attrs).filterMap id).map PAttr.typeCode).Nodup := by
  rw [keptAttrs, filterMap_filter_any]
  exact codes.sublist (filter_sublist.map _)

theorem Returned.codes (returned : Returned route back)
    (codes : ((route.attrs.filterMap id).map PAttr.typeCode).Nodup) :
    ((back.attrs.filterMap id).map PAttr.typeCode).Nodup := by
  rw [returned.attrs]
  cases af with
  | ipv4 =>
    rw [routeAttrs_exported4, @typeCodes_replace (keptAttrs .ipv4 route.attrs) route.nextHop]
    exact keptCodes codes
  | ipv6 =>
    rw [routeAttrs_exported6]
    exact keptCodes codes

/-- A filter decides about the returned route as about the stored one. -/
theorem Returned.permits (returned : Returned route back) (filter : Filter)
    (codes : ((route.attrs.filterMap id).map PAttr.typeCode).Nodup) : filter.permits back = filter.permits route := by
  refine filter.permits_congr returned.pfx codes (returned.codes codes) ?_
  rw [returned.attrs]
  cases af with
  | ipv4 =>
    rw [routeAttrs_exported4, @filteredAttrs_replace (keptAttrs .ipv4 route.attrs) route.nextHop, filteredAttrs_kept]
  | ipv6 => rw [routeAttrs_exported6, filteredAttrs_kept]

theorem keptAttrs_again (af : Af) (attrs : List (Option PAttr)) :
    keptAttrs af (keptAttrs af attrs) = keptAttrs af attrs :=
  filter_eq_self.mpr fun _ member => (mem_filter.mp member).2

theorem keptAttrs_replaced (present : none ∉ route.attrs) (nextHop : BitVec 32) :
    keptAttrs .ipv4 (replaceNextHop nextHop (keptAttrs .ipv4 route.attrs)) =
      replaceNextHop nextHop (keptAttrs .ipv4 route.attrs) := by
  refine filter_eq_self.mpr fun attr member => ?_
  cases attr with
  | none => exact absurd member (none_notMem_replaceNextHop fun kept => present (mem_filter.mp kept).1)
  | some attr =>
    obtain ⟨old, inside, type⟩ := exists_replaced.mp ⟨_, member, rfl⟩
    have exported := (some_mem_keptAttrs.mp inside).2
    rw [exportsAttr, ipv4RouteAttr, type] at exported
    exact exported

/-- The message of a returned route is that of the stored one. -/
theorem Returned.message (returned : Returned route back) (present : none ∉ route.attrs) :
    exportedMessage af back = exportedMessage af route := by
  cases af with
  | ipv4 =>
    have attrs := returned.attrs
    rw [routeAttrs_exported4] at attrs
    rw [exportedMessage, exportedMessage, attrs, returned.nextHop, returned.pfx,
      keptAttrs_replaced present route.nextHop,
      @replaceNextHop_again (keptAttrs .ipv4 route.attrs) route.nextHop]
  | ipv6 =>
    have attrs := returned.attrs
    rw [routeAttrs_exported6] at attrs
    rw [exportedMessage, exportedMessage, attrs, returned.nextHop, returned.linkLocal rfl, returned.pfx,
      keptAttrs_again]

theorem exists_kept (exported : ∀ attr : PAttr, attr.type = type → exportsAttr af attr = true)
    (found : ∃ attr, some attr ∈ route.attrs ∧ attr.type = type) :
    ∃ attr, some attr ∈ keptAttrs af route.attrs ∧ attr.type = type := by
  obtain ⟨attr, member, same⟩ := found
  exact ⟨attr, some_mem_keptAttrs.mpr ⟨member, exported attr same⟩, same⟩

/-- The returned route can be exported again. -/
theorem Returned.exportable (returned : Returned route back) (exportable : Exportable af route) :
    Exportable af back := by
  have codes := returned.codes exportable.codes
  have fits : back.pfx.len ≤ af.family.width := by rw [returned.pfx]; exact exportable.fits
  cases af with
  | ipv4 =>
    have attrs := returned.attrs
    rw [routeAttrs_exported4] at attrs
    have kept : ∀ type : PAttrType, type ≠ .mpReachIpv6 → type ≠ .mpUnreachIpv6 →
        (∃ attr, some attr ∈ route.attrs ∧ attr.type = type) → ∃ attr, some attr ∈ back.attrs ∧ attr.type = type := by
      intro type notReach notUnreach found
      rw [attrs]
      refine exists_replaced.mpr (exists_kept (fun attr same => ?_) found)
      simp [exportsAttr, ipv4RouteAttr, same, notReach, notUnreach]
    refine ⟨fits, ?_, codes, kept .origin (by decide) (by decide) exportable.origin,
      kept .asPath (by decide) (by decide) exportable.path,
      fun _ => kept .nextHop (by decide) (by decide) (exportable.nextHop rfl), by simp⟩
    rw [attrs]
    exact none_notMem_replaceNextHop fun kept => exportable.present (mem_filter.mp kept).1
  | ipv6 =>
    have attrs := returned.attrs
    rw [routeAttrs_exported6] at attrs
    have kept : ∀ type : PAttrType, type ≠ .nextHop → type ≠ .mpReachIpv6 → type ≠ .mpUnreachIpv6 →
        (∃ attr, some attr ∈ route.attrs ∧ attr.type = type) → ∃ attr, some attr ∈ back.attrs ∧ attr.type = type := by
      intro type notHop notReach notUnreach found
      rw [attrs]
      refine exists_kept (fun attr same => ?_) found
      simp [exportsAttr, ipv6RouteAttr, same, notHop, notReach, notUnreach]
    refine ⟨fits, ?_, codes, kept .origin (by decide) (by decide) (by decide) exportable.origin,
      kept .asPath (by decide) (by decide) (by decide) exportable.path, by simp, ?_⟩
    · rw [attrs]
      exact fun kept => exportable.present (mem_filter.mp kept).1
    · intro _ attr member
      rw [attrs] at member
      exact exportable.reach rfl attr (some_mem_keptAttrs.mp member).1

/-- The message of a route announces its prefix with the next hop of the route. -/
theorem Exportable.announcedFor (exportable : Exportable af route) :
    ∃ announced, announcedFor (exportedMessage af route) af route.pfx = some announced ∧
      (af = .ipv6 → announced.nextHopLen = 16 ∨ announced.nextHopLen = 32) ∧
      ∀ source weight isIbgp,
        Returned route (routeOf af source (exportedMessage af route) announced weight isIbgp) := by
  cases af with
  | ipv4 =>
    refine ⟨_, rfl, (nomatch ·), fun source weight isIbgp => ⟨rfl, ?_, (nomatch ·), rfl⟩⟩
    refine nextHopOf_replaced (exists_kept (fun attr same => ?_) (exportable.nextHop rfl))
    rw [exportsAttr, ipv4RouteAttr, same]
    rfl
  | ipv6 =>
    have silent : announcedPrefixes ⟨[], keptAttrs .ipv6 route.attrs, []⟩ .ipv6 = [] := by
      rw [eq_nil_iff_forall_not_mem]
      intro announced member
      obtain ⟨attr, inside, nexthop, linkLocal, length, nlri, data, -⟩ := mem_announced6.mp member
      have kept := (some_mem_keptAttrs.mp (mem_filterMap_id.mp inside)).2
      simp [exportsAttr, ipv6RouteAttr, PAttr.type, data] at kept
    have listed : announcedPrefixes (exportedMessage .ipv6 route) .ipv6 =
        announcedPrefixes ⟨[], keptAttrs .ipv6 route.attrs, []⟩ .ipv6 ++ [⟨route.pfx, route.nextHop,
          route.nextHopLinklocal, if route.nextHopLinklocal = 0 then 16 else 32⟩] := by
      simp only [announcedPrefixes, exportedMessage, filterMap_append, flatMap_append]
      rfl
    rw [silent, nil_append] at listed
    refine ⟨⟨route.pfx, route.nextHop, route.nextHopLinklocal, if route.nextHopLinklocal = 0 then 16 else 32⟩, ?_, ?_,
      fun source weight isIbgp => ⟨rfl, rfl, fun _ => ?_, rfl⟩⟩
    · rw [Libbgp.announcedFor, listed]
      simp
    · intro _
      dsimp only
      split <;> simp
    · dsimp only [routeOf]
      by_cases zero : route.nextHopLinklocal = 0
      · rw [if_pos zero, if_neg (by decide), zero]
      · rw [if_neg zero, if_pos rfl]

/-- With memory, a route is made from what was read. -/
theorem makeRoute_readBack {announced : Announced af.family.width}
    (length : af = .ipv6 → announced.nextHopLen = 16 ∨ announced.nextHopLen = 32) (source : RouterId)
    (update : UpdateMsg) (weight : Int) (isIbgp : Bool) (generous : alloc.Generous) :
    ∃ rest, makeRoute af source update announced weight isIbgp alloc =
      (.ok (routeOf af source update announced weight isIbgp), rest) ∧ alloc.Spent rest := by
  have built : (makeRoute af source update announced weight isIbgp []).1 =
      .ok (routeOf af source update announced weight isIbgp) := by
    cases af with
    | ipv4 => rfl
    | ipv6 =>
      have fits : ¬ (announced.nextHopLen ≠ 16 ∧ announced.nextHopLen ≠ 32) := by
        rcases length rfl with same | same <;> simp [same]
      simp only [makeRoute, fits, if_false, Allocator.request_nil]
      split <;> rfl
  rcases makeRoute_steady af source update alloc announced weight isIbgp with ⟨rest, made, spent⟩ | ⟨rest, -, refused⟩
  · exact ⟨rest, by rw [made, built], spent⟩
  · exact absurd refused generous.not_refused

/-- With memory a session reads the route back. -/
theorem Exportable.eventRoute (exportable : Exportable af route) (fsm : Fsm) (source : RouterId)
    (generous : alloc.Generous) :
    ∃ back rest, fsm.eventRoute af source route.pfx (exportedMessage af route) alloc = (.ok back, rest) ∧
      alloc.Spent rest ∧ Returned route back := by
  obtain ⟨announced, found, length, returned⟩ := exportable.announcedFor
  obtain ⟨rest, made, spent⟩ := makeRoute_readBack length source (exportedMessage af route) fsm.params.routeWeight
    fsm.isIbgp generous
  refine ⟨_, rest, ?_, spent, returned source fsm.params.routeWeight fsm.isIbgp⟩
  rw [Fsm.eventRoute, found]
  exact made

/-- An outbound filter decides about a route event as about the stored route. -/
theorem Exportable.exports_eq (exportable : Exportable af route) (fsm : Fsm) (source : RouterId)
    {filter : Option Filter} (configured : fsm.params.outFilter af = filter.map fun filter => filter.permits) :
    fsm.exports af source route.pfx (exportedMessage af route) = filter.all fun filter => filter.permits route := by
  obtain ⟨announced, found, length, returned⟩ := exportable.announcedFor
  cases af with
  | ipv4 =>
    simp only [Fsm.exports, Fsm.outPermits, Fsm.outFilter4Permits, configured]
    cases filter with
    | none => rfl
    | some filter =>
      have same : announced = ⟨route.pfx, nextHopOf (exportedMessage .ipv4 route), 0, 0⟩ := (Option.some.inj found).symm
      have back := returned source fsm.params.routeWeight true
      rw [same] at back
      exact @Returned.permits .ipv4 route _ ⟨back.pfx, back.nextHop, back.linkLocal, back.attrs⟩ filter exportable.codes
  | ipv6 =>
    simp only [Fsm.exports, Fsm.outPermits, Fsm.outFilter6Permits, configured]
    cases filter with
    | none => rfl
    | some filter =>
      obtain ⟨rest, made, -⟩ := makeRoute_readBack length source (exportedMessage .ipv6 route) fsm.params.routeWeight
        fsm.isIbgp Allocator.generous_nil
      simp only [Option.map_some, found, made]
      exact (returned source fsm.params.routeWeight fsm.isIbgp).permits filter exportable.codes

end Returning

end Libbgp
