/-
Forwarding: the message that announces a stored route to a peer, from the copy to the bytes.
-/

import Libbgp.Proof.AsPath
import Libbgp.Proof.Clone

namespace Libbgp

open Library List

/-- An attribute that may be passed on to a peer, and is read again as it is written. -/
structure Passable (isIbgp : Bool) (attr : PAttr) : Prop where
  optional : attr.flags &&& flagOptional ≠ 0 → attr.flags &&& flagTransitive = 0 → attr.type = .mpReachIpv6
  preference : isIbgp = false → attr.type ≠ .localPref
  marked : isIbgp = false → attr.type = .unknown → attr.flags &&& flagPartial ≠ 0
  announces : attr.type ≠ .mpUnreachIpv6
  faithful : attr.data.Faithful
  known : ∀ code value undecoded, attr.data = .unknown code value undecoded → pattrTypeFromCode code = .unknown

/-- Every attribute of a list may be passed on. -/
abbrev AllPassable (isIbgp : Bool) (attrs : List (Option PAttr)) : Prop :=
  ∀ attr, some attr ∈ attrs → Passable isIbgp attr

section Attributes

variable {isIbgp wide : Bool} {attr : PAttr} {data : PAttrData}

/-- An attribute that the library makes itself. -/
theorem passable_new {flags : UInt8} (type : PAttrType) (transitive : flags &&& flagTransitive ≠ 0)
    (faithful : data.Faithful)
    (same : PAttr.type ⟨flags, data⟩ = type) (kind : type ∉ [PAttrType.localPref, .unknown, .mpUnreachIpv6]) :
    Passable isIbgp ⟨flags, data⟩ := by
  subst same
  simp only [mem_cons, not_mem_nil, or_false, not_or] at kind
  refine ⟨fun _ none => absurd none transitive, fun _ => kind.1, fun _ same => absurd same kind.2.1,
    kind.2.2, faithful, ?_⟩
  rintro code value undecoded rfl
  exact absurd rfl kind.2.1

/-- Another value of the same kind passes as well. -/
theorem Passable.withData (passes : Passable isIbgp attr) (kind : PAttr.type ⟨attr.flags, data⟩ = attr.type)
    (decoded : attr.type ≠ .unknown) (faithful : data.Faithful) : Passable isIbgp ⟨attr.flags, data⟩ := by
  refine ⟨fun set clear => kind.trans (passes.optional set clear), fun external => kind ▸ passes.preference external,
    fun _ same => absurd (kind.symm.trans same) decoded, kind ▸ passes.announces, faithful, ?_⟩
  rintro code value undecoded rfl
  exact absurd kind.symm decoded

theorem partial_set : ∀ flags : UInt8, (flags ||| flagPartial) &&& flagPartial ≠ 0 := forall_byte (by decide +kernel)

theorem partial_transitive : ∀ flags : UInt8, (flags ||| flagPartial) &&& flagTransitive = flags &&& flagTransitive :=
  forall_byte (by decide +kernel)

theorem unknown_optional : ∀ flags : UInt8, pattrKnownFlagsValid .unknown flags = true → flags &&& flagOptional ≠ 0 :=
  forall_byte (by decide +kernel)

theorem multiprotocol_intransitive :
    ∀ flags : UInt8, pattrKnownFlagsValid .mpReachIpv6 flags = true → flags &&& flagTransitive = 0 :=
  forall_byte (by decide +kernel)

/-- An attribute that was read and is passed on. -/
theorem forwarded_passable (clean : CleanAttr attr) (forwarded : attr.forwarded isIbgp = true)
    (kind : attr.type ≠ .mpUnreachIpv6) :
    Passable isIbgp (if isIbgp then attr else attr.prepareForEbgpForward) := by
  have passes : (attr.flags &&& flagTransitive ≠ 0 ∨ attr.type = .mpReachIpv6) ∧
      (isIbgp = true ∨ attr.type ≠ .localPref) := by
    rw [PAttr.forwarded, Bool.and_eq_true, Bool.or_eq_true, Bool.or_eq_true, Bool.or_eq_true] at forwarded
    simpa [kind] using forwarded
  have optional : attr.flags &&& flagOptional ≠ 0 → attr.flags &&& flagTransitive = 0 → attr.type = .mpReachIpv6 :=
    fun _ none => passes.1.resolve_left (absurd none)
  have transitive (same : attr.type = .unknown) : attr.flags &&& flagTransitive ≠ 0 :=
    passes.1.resolve_right (by simp [same])
  have known (code : UInt8) (value : Bytes) (undecoded : code ∉ decodedCodes)
    (data : attr.data = .unknown code value undecoded) :
      pattrTypeFromCode code = .unknown := by
    have legible := clean.legible.data
    have flags := clean.legible.flags
    have code : attr.typeCode = code := by rw [PAttr.typeCode, data]
    rw [code] at flags
    rw [data] at legible
    rcases legible with unknown | ⟨-, ⟨rfl, -⟩ | ⟨rfl, -⟩⟩
    · exact unknown
    · exact absurd (multiprotocol_intransitive attr.flags flags) (transitive (by rw [PAttr.type, data]))
    · exact absurd (multiprotocol_intransitive attr.flags flags) (transitive (by rw [PAttr.type, data]))
  have faithful := clean.legible.data.faithful
  cases isIbgp with
  | true => exact ⟨optional, by simp, by simp, kind, faithful, known⟩
  | false =>
    have preference : attr.type ≠ .localPref := passes.2.resolve_left (by simp)
    show Passable false attr.prepareForEbgpForward
    rw [PAttr.prepareForEbgpForward]
    split
    case isTrue raw =>
      refine ⟨fun _ none => ?_, fun _ => preference, fun _ _ => partial_set attr.flags, kind, faithful, known⟩
      rw [partial_transitive] at none
      exact absurd none raw.2.2
    case isFalse plain =>
      refine ⟨optional, fun _ => preference, fun _ same => absurd ⟨same, ?_, transitive same⟩ plain, kind,
        faithful, known⟩
      have valid := clean.legible.flagsValid
      rw [same] at valid
      exact unknown_optional attr.flags valid

end Attributes

section Stages

variable {isIbgp wide : Bool} {attr : PAttr} {update after prepared : UpdateMsg} {fsm : Fsm} {alloc rest : Allocator}
  {type : PAttrType} {kinds : List PAttrType} {asn : UInt32} {routerId : RouterId}

/-- An attribute as it is passed on. -/
def passedOn (isIbgp : Bool) (attr : PAttr) : PAttr := if isIbgp then attr else attr.prepareForEbgpForward

theorem type_passedOn : (passedOn isIbgp attr).type = attr.type := by
  rw [passedOn, PAttr.prepareForEbgpForward]
  split
  · rfl
  · split <;> rfl

theorem passedOn_decoded (decoded : attr.type ≠ .unknown) : passedOn isIbgp attr = attr := by
  have same : attr.prepareForEbgpForward = attr := if_neg fun raw => decoded raw.1
  rw [passedOn, same]
  split <;> rfl

theorem prepareForwardAttrs_eq (done : update.prepareForwardAttrs isIbgp = .ok after) :
    after = { update with attrs := (((update.attrs.filterMap id).filter (·.forwarded isIbgp)).map
      (passedOn isIbgp)).map some } := by
  rw [UpdateMsg.prepareForwardAttrs] at done
  split at done
  case isTrue => cases done
  case isFalse =>
    rw [← Except.ok.inj done, map_map]
    rfl

theorem filterMap_map_some (list : List PAttr) : (list.map some).filterMap id = list := by simp

section

variable (done : update.prepareForwardAttrs isIbgp = .ok after)

include done

/-- The attributes that are passed on, with the partial bit on those that are not recognised. -/
theorem prepareForwardAttrs_members (clean : ∀ attr, some attr ∈ update.attrs → CleanAttr attr)
    (kinds : ∀ attr, some attr ∈ update.attrs → attr.type ≠ .mpUnreachIpv6) : AllPassable isIbgp after.attrs := by
  rw [prepareForwardAttrs_eq done]
  intro attr member
  obtain ⟨passed, inside, same⟩ := mem_map.mp member
  obtain rfl := Option.some.inj same
  obtain ⟨old, kept, rfl⟩ := mem_map.mp inside
  obtain ⟨stored, forwarded⟩ := mem_filter.mp kept
  have stored := mem_filterMap_id.mp stored
  exact forwarded_passable (clean old stored) forwarded (kinds old stored)

/-- The first attribute of a kind that is always passed on stays. -/
theorem prepareForwardAttrs_firstOf (decoded : type ≠ .unknown)
    (passes : ∀ attr, some attr ∈ update.attrs → attr.type = type → attr.forwarded isIbgp = true) :
    firstOf type after.attrs = firstOf type update.attrs := by
  have passes (attr : PAttr) (member : attr ∈ update.attrs.filterMap id) (kind : attr.type = type) :
      attr.forwarded isIbgp = true := passes attr (mem_filterMap_id.mp member) kind
  rw [prepareForwardAttrs_eq done, firstOf, filterMap_map_some, firstOf]
  generalize update.attrs.filterMap id = list at passes
  induction list with
  | nil => rfl
  | cons attr others ih =>
    have ih := ih fun other member => passes other (mem_cons_of_mem _ member)
    by_cases kind : attr.type = type
    · rw [filter_cons, if_pos (passes attr (mem_cons_self ..) kind), map_cons,
        passedOn_decoded (kind ▸ decoded), find?_cons, find?_cons, beq_iff_eq.mpr kind]
    · have other : (attr.type == type) = false := beq_eq_false_iff_ne.mpr kind
      have behind : (attr :: others).find? (fun attr => attr.type == type) =
          others.find? fun attr => attr.type == type := by
        rw [find?_cons, other]
      rw [behind, filter_cons]
      split
      · rw [map_cons, find?_cons, type_passedOn, other]
        exact ih
      · exact ih

theorem prepareForwardAttrs_counts (single : countOf type update.attrs ≤ 1) : countOf type after.attrs ≤ 1 := by
  rw [prepareForwardAttrs_eq done, countOf, filterMap_map_some, countP_map]
  refine Nat.le_trans (Nat.le_trans (countP_mono_left fun attr _ same => ?_) (filter_sublist.countP_le)) single
  rw [← same, Function.comp_apply, type_passedOn]

end

theorem addNewAttr_ok {requests : Nat} (done : update.addNewAttr attr requests alloc = (.ok, after, rest)) :
    after = { update with attrs := update.attrs ++ [some attr] } := by
  rw [UpdateMsg.addNewAttr] at done
  split at done
  case h_2 => cases congrArg Prod.fst done
  case h_1 =>
    rw [UpdateMsg.addAttr] at done
    split at done
    · cases congrArg Prod.fst done
    · split at done
      · exact (congrArg (fun result => result.2.1) done).symm
      · cases congrArg Prod.fst done

/-- One step of the rewriting: attributes of some kinds are written, and all attributes still pass. -/
structure Rewrites (isIbgp : Bool) (kinds : List PAttrType) (update after : UpdateMsg) : Prop where
  withdrawn : after.withdrawn = update.withdrawn
  nlri : after.nlri = update.nlri
  attrs : Edited kinds (Passable isIbgp) update.attrs after.attrs

theorem Rewrites.refl : Rewrites isIbgp kinds update update := ⟨rfl, rfl, .refl⟩

/-- The next hop is written in place, or in a new attribute. -/
theorem setNextHop4_rewrites {nextHop : BitVec 32} (done : update.setNextHop4 nextHop alloc = (.ok, after, rest))
    (passes : AllPassable isIbgp update.attrs) : Rewrites isIbgp [.nextHop] update after ∧
      ∃ flags, firstOf .nextHop after.attrs = some ⟨flags, .nextHop nextHop⟩ := by
  rw [UpdateMsg.setNextHop4] at done
  split at done
  case isTrue found =>
    obtain ⟨held, found⟩ := Option.isSome_iff_exists.mp found
    cases done
    refine ⟨⟨rfl, rfl, ?_⟩, held.flags, ?_⟩
    · show Edited _ _ _ (UpdateMsg.replaceNextHop nextHop update.attrs)
      rw [replaceNextHop_eq]
      refine .changeFirst (mem_singleton_self _) type_withNextHop fun attr stored kind => ?_
      exact (passes attr stored).withData kind.symm (kind ▸ by decide) trivial
    · show firstOf .nextHop (UpdateMsg.replaceNextHop nextHop update.attrs) = _
      rw [replaceNextHop_eq, firstOf_changeFirst type_withNextHop,
        show firstOf .nextHop update.attrs = some held from found]
      rfl
  case isFalse absent =>
    have absent : firstOf .nextHop update.attrs = none := Option.not_isSome_iff_eq_none.mp absent
    obtain rfl := addNewAttr_ok done
    have written : update.attrs ++ [some ⟨0x40, .nextHop nextHop⟩] = putAttr update.attrs ⟨0x40, .nextHop nextHop⟩ := by
      rw [putAttr]
      have unheld : ¬ (firstOf (PAttr.type ⟨0x40, .nextHop nextHop⟩) update.attrs).isSome = true :=
        Option.not_isSome_iff_eq_none.mpr absent
      exact (if_neg unheld).symm
    refine ⟨⟨rfl, rfl, ?_⟩, 0x40, ?_⟩
    · show Edited _ _ _ (update.attrs ++ [some ⟨0x40, .nextHop nextHop⟩])
      rw [written]
      exact .put (mem_singleton_self _) (passable_new .nextHop (by decide) trivial rfl (by decide))
    · show firstOf .nextHop (update.attrs ++ [some ⟨0x40, .nextHop nextHop⟩]) = _
      rw [written]
      exact firstOf_putAttr rfl

/-- The IPv4 next hop of a message is the configured one or lies in the peering LAN. -/
def NearNextHop4 (fsm : Fsm) (attrs : List (Option PAttr)) : Prop :=
  ∃ flags nextHop, firstOf .nextHop attrs = some ⟨flags, .nextHop nextHop⟩ ∧
    (nextHop = fsm.params.defaultNexthop4 ∨ addrMatches ipv4 (fsm.params.peeringLan .ipv4) nextHop = true)

/-- Only the next hop changes, and it becomes a near one. -/
theorem alterNexthop4_rewrites (done : fsm.alterNexthop4 update alloc = (.ok, after, rest))
    (passes : AllPassable isIbgp update.attrs) : Rewrites isIbgp [.nextHop] update after ∧
      (update.nlri ≠ [] → fsm.keepsNexthop = false → NearNextHop4 fsm after.attrs) := by
  rw [Fsm.alterNexthop4] at done
  split at done
  case isTrue skipped =>
    cases done
    refine ⟨.refl, fun announces alters => ?_⟩
    rw [alters, Bool.or_false] at skipped
    exact absurd (isEmpty_iff.mp skipped) announces
  case isFalse =>
    dsimp only at done
    generalize usesDefault : (fsm.params.forceDefaultNexthop .ipv4 || _) = replaced at done
    cases replaced with
    | false =>
      cases done
      refine ⟨.refl, fun _ _ => ?_⟩
      obtain ⟨-, near⟩ := Bool.or_eq_false_iff.mp usesDefault
      split at near
      case h_1 nextHop found =>
        obtain ⟨⟨flags, _⟩, held, rfl⟩ := Option.map_eq_some_iff.mp found
        exact ⟨flags, nextHop, held, .inr (by simpa using near)⟩
      case h_2 => cases near
    | true =>
      rw [Bool.not_true, if_neg Bool.false_ne_true] at done
      split at done
      case isTrue => cases congrArg Prod.fst done
      case isFalse =>
        obtain ⟨rewrites, flags, found⟩ := setNextHop4_rewrites done passes
        exact ⟨rewrites, fun _ _ => ⟨flags, _, found, .inl rfl⟩⟩

/-- An IPv6 attribute announces with the configured next hop or one in the peering LAN. -/
def NearNextHop6 (fsm : Fsm) (attr : PAttr) : Prop :=
  ∀ nexthop linkLocal nexthopLen nlri, attr.data = .mpReachIpv6 nexthop linkLocal nexthopLen nlri → nlri ≠ [] →
    nexthop = fsm.params.defaultNexthop6 ∨ addrMatches ipv6 (fsm.params.peeringLan .ipv6) nexthop = true

/-- What `fsm_alter_nexthop6` does to an attribute. -/
def alteredReach (fsm : Fsm) (attr : PAttr) : PAttr :=
  if fsm.keepsNexthop = false ∧ fsm.replacesNexthop6 attr = true then fsm.withDefaultNexthop6 attr else attr

/-- Prefixes announced with the configured next hop. -/
def defaultReach (fsm : Fsm) (nlri : List (Prefix 128)) : PAttrData :=
  .mpReachIpv6 fsm.params.defaultNexthop6 fsm.params.defaultNexthop6Linklocal
    (if fsm.params.defaultNexthop6Linklocal = 0 then 16 else 32) nlri

/-- Only the next hop of an IPv6 attribute changes. -/
theorem alteredReach_cases (fsm : Fsm) (attr : PAttr) : alteredReach fsm attr = attr ∨
    ∃ nexthop linkLocal nexthopLen nlri, attr.data = .mpReachIpv6 nexthop linkLocal nexthopLen nlri ∧
      alteredReach fsm attr = ⟨attr.flags, defaultReach fsm nlri⟩ := by
  rw [alteredReach]
  split
  case isFalse => exact .inl rfl
  case isTrue replaced =>
    rw [Fsm.replacesNexthop6] at replaced
    split at replaced
    case h_1 nexthop linkLocal nexthopLen nlri data =>
      refine .inr ⟨nexthop, linkLocal, nexthopLen, nlri, data, ?_⟩
      rw [Fsm.withDefaultNexthop6, data]
      rfl
    case h_2 => cases replaced.2

theorem type_alteredReach (attr : PAttr) : (alteredReach fsm attr).type = attr.type := by
  rcases alteredReach_cases fsm attr with same | ⟨nexthop, linkLocal, nexthopLen, nlri, data, same⟩
  · rw [same]
  · have kind : attr.type = .mpReachIpv6 := by rw [PAttr.type, data]
    rw [same, kind]
    rfl

/-- A next hop that is not kept is the configured one or in the peering LAN. -/
theorem alteredReach_near (alters : fsm.keepsNexthop = false) : NearNextHop6 fsm (alteredReach fsm attr) := by
  intro nexthop linkLocal nexthopLen nlri data announces
  by_cases replaced : fsm.replacesNexthop6 attr = true
  · have same : alteredReach fsm attr = fsm.withDefaultNexthop6 attr := if_pos ⟨alters, replaced⟩
    rw [same, Fsm.withDefaultNexthop6] at data
    rw [Fsm.replacesNexthop6] at replaced
    split at replaced
    case h_1 held =>
      rw [held] at data
      cases data
      exact .inl rfl
    case h_2 => cases replaced
  · have same : alteredReach fsm attr = attr := if_neg fun both => replaced both.2
    rw [same] at data
    rw [Fsm.replacesNexthop6, data, Bool.not_eq_true, Bool.and_eq_false_iff] at replaced
    rcases replaced with empty | near
    · exact absurd (isEmpty_iff.mp (by simpa using empty)) announces
    · exact .inr (by simpa using (Bool.or_eq_false_iff.mp near).2)

/-- A rewritten next hop leaves an attribute passable. -/
theorem Passable.altered (passes : Passable isIbgp attr) : Passable isIbgp (alteredReach fsm attr) := by
  rcases alteredReach_cases fsm attr with same | ⟨nexthop, linkLocal, nexthopLen, nlri, data, same⟩
  · rw [same]
    exact passes
  · rw [same]
    have kind : attr.type = .mpReachIpv6 := by rw [PAttr.type, data]
    have short (short : (if fsm.params.defaultNexthop6Linklocal = 0 then 16 else 32) = 16) :
        fsm.params.defaultNexthop6Linklocal = 0 := by
      by_contra linked
      rw [if_neg linked] at short
      cases short
    exact passes.withData kind.symm (kind ▸ by decide) short

/-- Each MP_REACH_NLRI is altered in its place. -/
theorem alterNexthop6_eq (done : fsm.alterNexthop6 update = .ok after) :
    after = { update with attrs := update.attrs.map (Option.map (alteredReach fsm)) } := by
  rw [Fsm.alterNexthop6] at done
  split at done
  case isTrue skipped =>
    have unaltered (attr : PAttr) (stored : some attr ∈ update.attrs) : alteredReach fsm attr = attr := by
      refine if_neg fun altered => ?_
      rw [altered.1, Bool.false_or, Bool.not_eq_true', any_eq_false] at skipped
      exact skipped attr (mem_filterMap_id.mpr stored) altered.2
    have same : update.attrs.map (Option.map (alteredReach fsm)) = update.attrs := by
      conv_rhs => rw [← map_id update.attrs]
      refine map_congr_left fun slot stored => ?_
      cases slot with
      | none => rfl
      | some attr => exact congrArg some (unaltered attr stored)
    rw [← Except.ok.inj done, same]
  case isFalse altered =>
    have alters : fsm.keepsNexthop = false := by
      rw [Bool.or_eq_true, not_or] at altered
      exact Bool.eq_false_iff.mpr altered.1
    dsimp only at done
    split at done
    case isTrue => cases done
    case isFalse =>
      have same : alteredReach fsm =
          fun attr => if fsm.replacesNexthop6 attr then fsm.withDefaultNexthop6 attr else attr :=
        funext fun attr => if_congr (and_iff_right alters) rfl rfl
      rw [← Except.ok.inj done, same]

theorem alterNexthop6_rewrites (done : fsm.alterNexthop6 update = .ok after)
    (passes : AllPassable isIbgp update.attrs) : Rewrites isIbgp [.mpReachIpv6] update after := by
  rw [alterNexthop6_eq done]
  refine ⟨rfl, rfl, .map type_alteredReach (fun attr other => ?_) fun attr stored _ => (passes attr stored).altered⟩
  rcases alteredReach_cases fsm attr with same | ⟨nexthop, linkLocal, nexthopLen, nlri, data, -⟩
  · exact same
  · exact absurd (mem_singleton.mpr (by rw [PAttr.type, data])) other

theorem Passable.withAggregator (passes : Passable isIbgp attr) (kind : attr.type = .aggregator) :
    Passable isIbgp (withAggregator asn routerId wide attr) :=
  passes.withData kind.symm (kind ▸ nofun) trivial

/-- The AGGREGATOR of a message in place, with AS numbers of a width. -/
theorem changeAggregator_rewrites (passes : AllPassable isIbgp update.attrs) :
    Rewrites isIbgp [.aggregator, .as4Aggregator] update
      { update with attrs := changeFirst .aggregator (withAggregator asn routerId wide) update.attrs } :=
  ⟨rfl, rfl, .changeFirst (mem_cons_self ..) type_withAggregator fun attr stored kind =>
    (passes attr stored).withAggregator kind⟩

theorem firstOf_changeAggregator {attrs : List (Option PAttr)}
    (found : firstOf .aggregator (changeFirst .aggregator (withAggregator asn routerId wide) attrs) = some attr) :
    parseAs4Context attr = wide := by
  rw [firstOf_changeFirst type_withAggregator] at found
  obtain ⟨old, -, rfl⟩ := Option.map_eq_some_iff.mp found
  rfl

/-- One of the two conversions of the AGGREGATOR. -/
def convertAggregator (wide : Bool) : UpdateMsg → Work UpdateMsg :=
  if wide then updateRestoreAggregator else updateDowngradeAggregator

theorem Rewrites.remove (rewrites : Rewrites isIbgp kinds update after) (kind : type ∈ kinds) :
    Rewrites isIbgp kinds update { after with attrs := removeAttrType type after.attrs } :=
  ⟨rewrites.withdrawn, rewrites.nlri, rewrites.attrs.trans (.remove kind)⟩

theorem Rewrites.trans (first : Rewrites isIbgp kinds update after) (second : Rewrites isIbgp kinds after prepared) :
    Rewrites isIbgp kinds update prepared :=
  ⟨second.withdrawn.trans first.withdrawn, second.nlri.trans first.nlri, first.attrs.trans second.attrs⟩

theorem Rewrites.put (kind : attr.type ∈ kinds) (passes : Passable isIbgp attr) :
    Rewrites isIbgp kinds update { update with attrs := putAttr update.attrs attr } := ⟨rfl, rfl, .put kind passes⟩

theorem Rewrites.passes (rewrites : Rewrites isIbgp kinds update after) (passes : AllPassable isIbgp update.attrs) :
    AllPassable isIbgp after.attrs :=
  rewrites.attrs.all passes

/-- After the conversion the AGGREGATOR has the width of the session. -/
theorem restoreAggregator_rewrites (yields : Work.Yields (updateRestoreAggregator update) after)
    (passes : AllPassable isIbgp update.attrs) : Rewrites isIbgp [.aggregator, .as4Aggregator] update after ∧
      ∀ attr, firstOf .aggregator after.attrs = some attr → parseAs4Context attr = true := by
  have shadow : PAttrType.as4Aggregator ∈ [PAttrType.aggregator, .as4Aggregator] := by decide
  have apart : PAttrType.aggregator ≠ .as4Aggregator := by decide
  rcases Option.eq_none_or_eq_some (update.findAttr .aggregator) with absent | ⟨held, found⟩
  · rcases Option.eq_none_or_eq_some (update.findAttr .as4Aggregator) with none | ⟨as4, listed⟩
    · simp only [updateRestoreAggregator, absent, none] at yields
      obtain rfl := Work.yields_pure yields
      refine ⟨.refl, fun attr found => ?_⟩
      cases absent.symm.trans found
    · simp only [updateRestoreAggregator, absent, listed] at yields
      obtain ⟨⟨⟩, -, yields⟩ := yields.bind
      obtain ⟨longer, set, yields⟩ := yields.bind
      obtain rfl := set.unique (updateSetAttr_gives (show (7 : UInt8) ∈ decodedCodes by decide))
      obtain rfl := Work.yields_pure yields
      have made : Passable isIbgp ⟨0xc0, .aggregator as4.aggregatorData.1 as4.aggregatorData.2.1 true⟩ :=
        passable_new .aggregator (by decide) trivial rfl (by decide)
      refine ⟨(Rewrites.put (mem_cons_self ..) made).remove shadow, fun attr found => ?_⟩
      rw [firstOf_removeAttrType_other apart] at found
      obtain rfl := Option.some.inj ((firstOf_putAttr (by rfl)).symm.trans found)
      rfl
  · rcases Option.eq_none_or_eq_some (update.findAttr .as4Aggregator) with none | ⟨as4, listed⟩
    · simp only [updateRestoreAggregator, found, none] at yields
      obtain rfl := Work.yields_pure yields
      exact ⟨changeAggregator_rewrites passes, fun attr found => firstOf_changeAggregator found⟩
    · simp only [updateRestoreAggregator, found, listed] at yields
      obtain rfl := Work.yields_pure yields
      refine ⟨(changeAggregator_rewrites passes).remove shadow, fun attr found => ?_⟩
      rw [firstOf_removeAttrType_other apart] at found
      exact firstOf_changeAggregator found

/-- After a downgrade the AGGREGATOR is narrow. -/
theorem downgradeAggregator_rewrites (yields : Work.Yields (updateDowngradeAggregator update) after)
    (passes : AllPassable isIbgp update.attrs) : Rewrites isIbgp [.aggregator, .as4Aggregator] update after ∧
      ∀ attr, firstOf .aggregator after.attrs = some attr → parseAs4Context attr = false := by
  rcases Option.eq_none_or_eq_some (update.findAttr .aggregator) with absent | ⟨held, found⟩
  · simp only [updateDowngradeAggregator, absent] at yields
    obtain rfl := Work.yields_pure yields
    refine ⟨.refl, fun attr found => ?_⟩
    cases absent.symm.trans found
  · simp only [updateDowngradeAggregator, found] at yields
    split at yields
    case isTrue =>
      obtain ⟨⟨⟩, -, yields⟩ := yields.bind
      obtain ⟨longer, set, yields⟩ := yields.bind
      obtain rfl := set.unique (updateSetAttr_gives (show (18 : UInt8) ∈ decodedCodes by decide))
      obtain rfl := Work.yields_pure yields
      have made : Passable isIbgp ⟨0xc0, .as4Aggregator held.aggregatorData.1 held.aggregatorData.2.1 true⟩ :=
        passable_new .as4Aggregator (by decide) rfl rfl (by decide)
      have longer : Rewrites isIbgp [.aggregator, .as4Aggregator] update _ :=
        .put (mem_cons_of_mem _ (mem_cons_self ..)) made
      exact ⟨longer.trans (changeAggregator_rewrites (longer.passes passes)),
        fun attr found => firstOf_changeAggregator found⟩
    case isFalse =>
      obtain ⟨same, kept, yields⟩ := yields.bind
      obtain rfl := Work.yields_pure kept
      obtain rfl := Work.yields_pure yields
      exact ⟨changeAggregator_rewrites passes, fun attr found => firstOf_changeAggregator found⟩

theorem convertAggregator_rewrites (done : (convertAggregator wide update).outcome = .ok after)
    (passes : AllPassable isIbgp update.attrs) : Rewrites isIbgp [.aggregator, .as4Aggregator] update after ∧
      ∀ attr, firstOf .aggregator after.attrs = some attr → parseAs4Context attr = wide := by
  cases wide with
  | true => exact restoreAggregator_rewrites (Work.Yields.ofOutcome done) passes
  | false => exact downgradeAggregator_rewrites (Work.Yields.ofOutcome done) passes

end Stages

end Libbgp
