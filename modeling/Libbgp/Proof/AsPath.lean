/-
AS paths in messages: what the conversions between the two widths and the prepending of an AS do to the path.
-/

import Libbgp.Proof.AttrList
import Libbgp.Proof.PathSegments

namespace Libbgp

open List

/-- The segments of the AS path of a message. -/
def UpdateMsg.path (update : UpdateMsg) : List AsPathSegment := ((update.findAttr .asPath).map PAttr.segments).getD []

/-- The segments of the shadow of a path, if there is one. -/
def UpdateMsg.shadow (update : UpdateMsg) : Option (List AsPathSegment) := (update.findAttr .as4Path).map PAttr.segments

/-- A path attribute that is well formed. -/
structure ValidPath (attr : PAttr) : Prop where
  counted : validateAsPathData attr false = .ok (pathAsns attr.segments).length
  writable : Writable attr.segments

section Valid

variable {attr : PAttr} {type : PAttrType} {segments : List AsPathSegment} {is4b : Bool} {count : Nat}

theorem length_pathAsns : (pathAsns segments).length = (segments.map fun segment => segment.asns.length).sum :=
  length_flatMap

/-- The check of a path attribute, for the two kinds of them. -/
theorem validateAsPathData_path (data : attr.data = .asPath segments is4b ∨ attr.data = .as4Path segments is4b) :
    validateAsPathData attr false =
      if attr.type = .as4Path ∧ is4b = false then .error .badLen
      else if segments.all segmentWritable then .ok (pathAsns segments).length else .error .badLen := by
  rw [length_pathAsns]
  obtain ⟨flags, _⟩ := attr
  rcases data with rfl | rfl
  · simp only [validateAsPathData, Bool.false_and, Bool.not_false, Bool.and_true]
  · simp only [validateAsPathData, Bool.false_and, Bool.not_false, Bool.and_true]

/-- A path that passes its check is valid and counted. -/
theorem validPath_of_ok (done : validateAsPathData attr false = .ok count) :
    ValidPath attr ∧ count = (pathAsns attr.segments).length := by
  have each (segments : List AsPathSegment) (is4b : Bool) (same : attr.segments = segments)
      (data : attr.data = .asPath segments is4b ∨ attr.data = .as4Path segments is4b) :
      ValidPath attr ∧ count = (pathAsns attr.segments).length := by
    have formed := done
    rw [validateAsPathData_path data] at formed
    obtain ⟨-, checked⟩ := Work.guard_ok formed
    obtain ⟨writable, total⟩ := exists_of_ite checked
    rw [same]
    refine ⟨⟨?_, ?_⟩, total.symm⟩
    · rw [same, total]
      exact done
    · rw [same]
      exact all_eq_true.mp writable
  obtain ⟨flags, data⟩ := attr
  cases data with
  | asPath segments is4b => exact each segments is4b rfl (.inl rfl)
  | as4Path segments is4b => exact each segments is4b rfl (.inr rfl)
  | _ => cases done

theorem validPath_newPath (writable : Writable segments) (width : type = .as4Path → is4b = true) :
    ValidPath (newPath type segments is4b) := by
  have all : segments.all segmentWritable = true := all_eq_true.mpr writable
  rw [newPath]
  split
  case isTrue shadow =>
    refine ⟨(validateAsPathData_path (.inr rfl)).trans ?_, writable⟩
    rw [if_neg (fun narrow => Bool.false_ne_true (narrow.2.symm.trans (width shadow))), if_pos all]
    rfl
  case isFalse =>
    refine ⟨(validateAsPathData_path (.inl rfl)).trans ?_, writable⟩
    rw [if_neg (fun shadow => nomatch shadow.1), if_pos all]
    rfl

end Valid

/-- AS numbers are filled in one by one, as `libbgp_update_restore_as_path` decides it. -/
def Sparse (segments as4 : List AsPathSegment) : Prop :=
  (pathAsns as4).length ≠ (pathAsns segments).length ∧
    (pathAsns segments).count asTrans = (pathAsns as4).length ∧
    suffixMatchesAs4 (pathAsns segments) (pathAsns as4) ((pathAsns segments).length - (pathAsns as4).length) = false

instance (segments as4 : List AsPathSegment) : Decidable (Sparse segments as4) :=
  inferInstanceAs (Decidable (_ ∧ _ ∧ _))

/-- The path that is restored from a path and its shadow. -/
inductive Restores (segments : List AsPathSegment) : Option (List AsPathSegment) → List AsPathSegment → Prop where
  | alone : Restores segments none segments
  | filled {as4 : List AsPathSegment} (short : (pathAsns as4).length ≤ (pathAsns segments).length)
      (sparse : Sparse segments as4) :
      Restores segments (some as4) (fillSegments segments (pathAsns as4))
  | joined {as4 : List AsPathSegment} (short : (pathAsns as4).length ≤ (pathAsns segments).length)
      (dense : ¬ Sparse segments as4)
      (uncut : checkKept segments ((pathAsns segments).length - (pathAsns as4).length) = .ok ()) :
      Restores segments (some as4) (keptSegments segments ((pathAsns segments).length - (pathAsns as4).length) ++ as4)

/-- A path and its shadow give one restored path. -/
theorem Restores.unique {path segments other : List AsPathSegment} {shadow : Option (List AsPathSegment)}
    (first : Restores path shadow segments) (second : Restores path shadow other) : segments = other := by
  cases first with
  | alone =>
    cases second
    rfl
  | filled short sparse =>
    cases second with
    | filled => rfl
    | joined short dense => exact absurd sparse dense
  | joined short dense uncut =>
    cases second with
    | filled short sparse => exact absurd sparse dense
    | joined => rfl

namespace UpdateMsg

variable {update restored : UpdateMsg} {attr : PAttr} {segments : List AsPathSegment}

theorem type_widen (attr : PAttr) (_ : attr.type = .asPath) : (widen segments attr).type = .asPath := rfl

/-- The message with another path and no shadow. -/
def withPath (update : UpdateMsg) (segments : List AsPathSegment) : UpdateMsg :=
  { update with attrs := removeAttrType .as4Path (changeFirst .asPath (widen segments) update.attrs) }

theorem path_withPath (held : update.findAttr .asPath = some attr) : (update.withPath segments).path = segments := by
  have found : (update.withPath segments).findAttr .asPath = some (widen segments attr) := by
    refine (firstOf_removeAttrType_other (by decide)).trans ((firstOf_changeFirst type_widen).trans ?_)
    exact congrArg (Option.map _) held
  rw [path, found]
  rfl

theorem shadow_withPath (single : countOf .as4Path update.attrs ≤ 1) :
    (update.withPath segments).findAttr .as4Path = none := by
  refine firstOf_removeAttrType ?_
  rw [countOf_changeFirst type_widen]
  exact single

end UpdateMsg

section Restoring

variable {update restored : UpdateMsg} {attr : PAttr} {segments : List AsPathSegment}

theorem restoreAsPathSparse_gives {as4 : PAttr} (valid : ValidPath attr) (listed : ValidPath as4)
    (enough : (pathAsns attr.segments).count asTrans = (pathAsns as4.segments).length) :
    Work.Gives (restoreAsPathSparse attr as4) (fillSegments attr.segments (pathAsns as4.segments)) := by
  refine (Work.gives_ofExcept valid.counted).bind ((Work.gives_ofExcept listed.counted).bind ?_)
  exact .check (not_not_intro enough) (Work.gives_pure _)

/-- A valid path is restored. -/
theorem restoreAsPath_gives (held : update.findAttr .asPath = some attr) (valid : ValidPath attr)
    (shadow : ∀ as4, update.findAttr .as4Path = some as4 → ValidPath as4)
    (restores : Restores attr.segments update.shadow segments) :
    Work.Gives (updateRestoreAsPath update) (update.withPath segments) := by
  rw [UpdateMsg.shadow] at restores
  rcases found : update.findAttr .as4Path with _ | as4
  · rw [found] at restores
    cases restores
    simp only [updateRestoreAsPath, held, found]
    refine (Work.gives_ofExcept valid.counted).bind (Work.gives_of_eq ?_)
    rw [UpdateMsg.withPath, removeAttrType_absent]
    exact (firstOf_changeFirst_other UpdateMsg.type_widen (by decide)).trans found
  · rw [found] at restores
    have listed := shadow as4 found
    simp only [updateRestoreAsPath, held, found]
    refine (Work.gives_ofExcept listed.counted).bind ((Work.gives_ofExcept valid.counted).bind ?_)
    cases restores with
    | filled short sparse =>
      have formed : _ ∧ _ ∧ _ := sparse
      refine .check (Nat.not_lt_of_le short) ?_
      rw [if_pos formed]
      exact (restoreAsPathSparse_gives valid listed formed.2.1).bind (Work.gives_pure _)
    | joined short dense uncut =>
      have formed : ¬ (_ ∧ _ ∧ _) := dense
      refine .check (Nat.not_lt_of_le short) ?_
      rw [if_neg formed]
      exact (rebuild_gives valid.writable listed.writable uncut (Nat.sub_le _ _)).bind (Work.gives_pure _)

/-- What is restored from a message has the path that is restored from its path and its shadow. -/
theorem restoreAsPath_path {attrs : List (Option PAttr)} {shadow : Option PAttr} (update : UpdateMsg)
    (held : firstOf .asPath attrs = some attr) (listed : firstOf .as4Path attrs = shadow) (valid : ValidPath attr)
    (shadows : ∀ as4, shadow = some as4 → ValidPath as4)
    (restores : Restores attr.segments (shadow.map PAttr.segments) segments) :
    ∃ restored, (updateRestoreAsPath { update with attrs := attrs }).outcome = .ok restored ∧
      restored.path = segments := by
  subst listed
  have held : UpdateMsg.findAttr { update with attrs := attrs } .asPath = some attr := held
  exact ⟨_, (restoreAsPath_gives held valid shadows restores).outcome, UpdateMsg.path_withPath held⟩

/-- What is restored comes from a valid path and shadow. -/
theorem restoreAsPath_yields (held : update.findAttr .asPath = some attr)
    (yields : Work.Yields (updateRestoreAsPath update) restored) :
    ValidPath attr ∧ (∀ as4, update.findAttr .as4Path = some as4 → ValidPath as4) ∧
      ∃ segments, Restores attr.segments update.shadow segments ∧ restored = update.withPath segments := by
  have unique (valid : ValidPath attr) (listed : ∀ as4, update.findAttr .as4Path = some as4 → ValidPath as4)
      (segments : List AsPathSegment) (restores : Restores attr.segments update.shadow segments) :
      ValidPath attr ∧ (∀ as4, update.findAttr .as4Path = some as4 → ValidPath as4) ∧
        ∃ segments, Restores attr.segments update.shadow segments ∧ restored = update.withPath segments :=
    ⟨valid, listed, segments, restores, yields.unique (restoreAsPath_gives held valid listed restores)⟩
  have started := yields
  rcases Option.eq_none_or_eq_some (update.findAttr .as4Path) with found | ⟨as4, found⟩
  · simp only [updateRestoreAsPath, held, found] at started
    obtain ⟨count, checked, -⟩ := started.bind
    obtain ⟨valid, -⟩ := validPath_of_ok (Work.yields_ofExcept checked)
    refine unique valid (fun as4 other => nomatch found.symm.trans other) attr.segments ?_
    rw [UpdateMsg.shadow, found]
    exact .alone
  · simp only [updateRestoreAsPath, held, found] at started
    obtain ⟨listedCount, first, started⟩ := started.bind
    obtain ⟨count, second, started⟩ := started.bind
    obtain ⟨listed, rfl⟩ := validPath_of_ok (Work.yields_ofExcept first)
    obtain ⟨valid, rfl⟩ := validPath_of_ok (Work.yields_ofExcept second)
    obtain ⟨short, started⟩ := started.check
    have short := Nat.le_of_not_lt short
    have shadows : ∀ other, update.findAttr .as4Path = some other → ValidPath other := by
      intro other same
      obtain rfl := Option.some.inj (found.symm.trans same)
      exact listed
    have shadow : update.shadow = some as4.segments := congrArg (Option.map PAttr.segments) found
    by_cases sparse : Sparse attr.segments as4.segments
    · exact unique valid shadows _ (shadow ▸ Restores.filled short sparse)
    · have formed : ¬ (_ ∧ _ ∧ _) := sparse
      rw [if_neg formed] at started
      obtain ⟨segments, rebuilt, -⟩ := started.bind
      obtain ⟨uncut, -⟩ := rebuild_yields valid.writable listed.writable (Nat.sub_le _ _) rebuilt
      exact unique valid shadows _ (shadow ▸ Restores.joined short sparse uncut)

end Restoring

section Conversions

variable {update narrow after : UpdateMsg} {attr shadow : PAttr} {segments suffix : List AsPathSegment} {asn : UInt32}
  {routerId : RouterId}

theorem type_of_decoded (decoded : attr.typeCode ∈ decodedCodes) : pattrTypeFromCode attr.typeCode = attr.type := by
  refine pattrTypeFromCode_typeCode ?_
  obtain ⟨flags, data⟩ := attr
  cases data with
  | unknown code value undecoded => exact absurd decoded undecoded
  | _ => exact nofun

/-- Setting an attribute replaces the one of its kind or appends it. -/
theorem updateSetAttr_gives (decoded : attr.typeCode ∈ decodedCodes) :
    Work.Gives (updateSetAttr update attr) { update with attrs := putAttr update.attrs attr } := by
  rw [updateSetAttr, putAttr]
  split
  case isTrue found =>
    refine Work.gives_of_eq ?_
    rw [if_pos (show (firstOf attr.type update.attrs).isSome = true from found)]
  case isFalse absent =>
    rw [if_neg (show ¬ (firstOf attr.type update.attrs).isSome = true from absent)]
    refine .check (fun clash => absent ?_) ((Work.gives_ask _).bind (Work.gives_pure _))
    -- an attribute with the same code would be of the same kind
    obtain ⟨slot, member, same⟩ := any_eq_true.mp clash
    rcases slot with _ | held
    · cases same
    · have code : held.typeCode = attr.typeCode := beq_iff_eq.mp same
      have kind : held.type = attr.type := by rw [← type_of_decoded decoded, ← type_of_decoded (code ▸ decoded), code]
      exact find?_isSome.mpr ⟨held, mem_filterMap.mpr ⟨some held, member, rfl⟩, beq_iff_eq.mpr kind⟩

theorem updateSetAttrPair_gives (apart : shadow.type ≠ attr.type) :
    Work.Gives (updateSetAttrPair update attr shadow)
      { update with attrs := putAttr (putAttr update.attrs attr) shadow } := by
  refine (Work.gives_ask _).bind (Work.gives_of_eq ?_)
  have same : firstOf shadow.type (putAttr update.attrs attr) = update.findAttr shadow.type :=
    firstOf_putAttr_other _ rfl apart
  rw [putAttr, same]
  rfl

theorem newPath_decoded (is4b : Bool) : (newPath .asPath segments is4b).typeCode ∈ decodedCodes :=
  show (2 : UInt8) ∈ decodedCodes by decide

theorem newPath_apart (first second : Bool) :
    (newPath .as4Path suffix first).type ≠ (newPath .asPath segments second).type := nofun

/-- A narrow path and its shadow are written. -/
def putPaths (attrs : List (Option PAttr)) (path shadow : List AsPathSegment) : List (Option PAttr) :=
  putAttr (putAttr attrs (newPath .asPath path false)) (newPath .as4Path shadow true)

theorem firstOf_putPaths {attrs : List (Option PAttr)} :
    firstOf .asPath (putPaths attrs segments suffix) = some (newPath .asPath segments false) ∧
      firstOf .as4Path (putPaths attrs segments suffix) = some (newPath .as4Path suffix true) :=
  ⟨(firstOf_putAttr_other .as4Path (by rfl) (by decide)).trans (firstOf_putAttr rfl), firstOf_putAttr rfl⟩

/-- The attributes of a message whose path was made narrow. -/
inductive Narrowed (attrs : List (Option PAttr)) (segments : List AsPathSegment) : List (Option PAttr) → Prop where
  | plain (small : ∀ asn ∈ pathAsns segments, ¬ 65535 < asn) :
      Narrowed attrs segments (removeAttrType .as4Path (putAttr attrs (newPath .asPath segments false)))
  | shadowed {start : Nat} {suffix : List AsPathSegment} (inside : start < (pathAsns segments).length)
      (small : ∀ asn ∈ (pathAsns segments).take start, ¬ 65535 < asn)
      (cut : suffixSegments start 0 segments = .ok suffix) :
      Narrowed attrs segments (putPaths attrs (narrowSegments segments) suffix)

theorem clonePathAsType_gives (valid : ValidPath attr) (type : PAttrType) (is4b : Bool) :
    Work.Gives (clonePathAsType type attr is4b) (newPath type attr.segments is4b) :=
  (Work.gives_ask _).bind ((Work.gives_ofExcept valid.counted).bind ((Work.gives_ask _).bind (Work.gives_pure _)))

/-- A cloned suffix is what the path has behind its start. -/
theorem clonePathSuffix_yields {start : Nat} (valid : ValidPath attr)
    (yields : Work.Yields (clonePathSuffix attr start) shadow) :
    start < (pathAsns attr.segments).length ∧ ∃ suffix, suffixSegments start 0 attr.segments = .ok suffix ∧
      shadow = newPath .as4Path suffix true := by
  obtain ⟨count, counted, started⟩ := yields.bind
  obtain rfl := Except.ok.inj ((Work.yields_ofExcept counted).symm.trans valid.counted)
  obtain ⟨inside, started⟩ := started.check
  obtain ⟨suffix, cut, started⟩ := started.bind
  obtain ⟨⟨⟩, -, done⟩ := started.bind
  exact ⟨Nat.lt_of_not_le inside, suffix, Work.yields_ofExcept cut, (Work.yields_pure done).symm⟩

/-- A downgrade narrows a valid path. -/
theorem downgradeAsPath_yields (held : update.findAttr .asPath = some attr) (wide : parseAs4Context attr = true)
    (yields : Work.Yields (updateDowngradeAsPath update) narrow) :
    ValidPath attr ∧ ∃ attrs, Narrowed update.attrs attr.segments attrs ∧ narrow = { update with attrs := attrs } := by
  have started := yields
  simp only [updateDowngradeAsPath, held, wide, Bool.not_true, Bool.false_eq_true, if_false] at started
  obtain ⟨count, checked, started⟩ := started.bind
  obtain ⟨valid, -⟩ := validPath_of_ok (Work.yields_ofExcept checked)
  obtain ⟨next, cloned, started⟩ := started.bind
  obtain rfl := cloned.unique (clonePathAsType_gives valid .asPath false)
  refine ⟨valid, ?_⟩
  split at started
  case isTrue some =>
    obtain ⟨shadow, suffix, started⟩ := started.bind
    obtain ⟨inside, suffix, cut, rfl⟩ := clonePathSuffix_yields valid suffix
    have done := started.unique (updateSetAttrPair_gives (newPath_apart _ _))
    refine ⟨_, .shadowed inside ?_ cut, done⟩
    intro asn early large
    obtain ⟨place, before, rfl⟩ := mem_take_iff_getElem.mp early
    have small := not_of_lt_findIdx (Nat.lt_of_lt_of_le before (Nat.min_le_left _ _))
    exact of_decide_eq_false small large
  case isFalse none =>
    obtain ⟨after, put, started⟩ := started.bind
    obtain rfl := put.unique (updateSetAttr_gives (newPath_decoded _))
    have small : ∀ asn ∈ pathAsns attr.segments, ¬ 65535 < asn := by
      intro asn member large
      exact none (any_eq_true.mpr ⟨asn, member, decide_eq_true large⟩)
    have same : narrowSegments (newPath .asPath attr.segments false).segments = attr.segments :=
      narrowSegments_small small
    rw [same] at started
    exact ⟨_, .plain small, (Work.yields_pure started).symm⟩

/-- A narrow path with its shadow is restored to the wide path. -/
theorem Narrowed.restores {attrs after : List (Option PAttr)} (valid : ValidPath attr)
    (single : countOf .as4Path attrs ≤ 1) (narrowed : Narrowed attrs attr.segments after) :
    ∃ held, firstOf .asPath after = some held ∧ ValidPath held ∧
      pathAsns held.segments = (pathAsns attr.segments).map narrowAsn ∧
      (∀ as4, firstOf .as4Path after = some as4 → ValidPath as4) ∧ countOf .as4Path after ≤ 1 ∧
      ∃ segments, Restores held.segments ((firstOf .as4Path after).map PAttr.segments) segments ∧
        Resplit attr.segments segments := by
  cases narrowed with
  | plain small =>
    have path : firstOf .asPath (removeAttrType .as4Path (putAttr attrs (newPath .asPath attr.segments false))) =
        some (newPath .asPath attr.segments false) :=
      (firstOf_removeAttrType_other (by decide)).trans (firstOf_putAttr rfl)
    have absent : firstOf .as4Path (removeAttrType .as4Path (putAttr attrs (newPath .asPath attr.segments false))) =
        none := firstOf_removeAttrType (countOf_putAttr single)
    have asns := @pathAsns_narrow attr.segments
    rw [narrowSegments_small small] at asns
    refine ⟨_, path, validPath_newPath valid.writable nofun, asns, ?_, ?_, attr.segments, ?_, .same _⟩
    · intro as4 found
      cases absent.symm.trans found
    · exact Nat.le_trans countOf_removeAttrType (countOf_putAttr single)
    · rw [absent]
      exact .alone
  | @shadowed start suffix inside small cut =>
    obtain ⟨uncut, resplit, asns, writable⟩ := suffixSegments_resplit valid.writable (Nat.zero_le start) cut
    rw [Nat.sub_zero] at uncut resplit asns
    obtain ⟨path, listed⟩ := @firstOf_putPaths (narrowSegments attr.segments) suffix attrs
    have front : keptSegments (narrowSegments attr.segments) start = keptSegments attr.segments start := by
      rw [keptSegments_narrow, narrowSegments_small]
      rw [pathAsns_kept]
      exact small
    have total : (pathAsns (narrowSegments attr.segments)).length = (pathAsns attr.segments).length := by
      rw [pathAsns_narrow, length_map]
    have count : (pathAsns suffix).length = (pathAsns attr.segments).length - start := by
      rw [asns, length_drop]
    have place : (pathAsns (narrowSegments attr.segments)).length - (pathAsns suffix).length = start := by omega
    have dense : ¬ Sparse (narrowSegments attr.segments) suffix := by
      rintro ⟨-, -, differs⟩
      rw [place, pathAsns_narrow, asns, suffixMatches_narrow] at differs
      cases differs
    refine ⟨_, path, validPath_newPath (writable_narrow valid.writable) nofun, pathAsns_narrow, ?_, ?_,
      keptSegments attr.segments start ++ suffix, ?_, resplit⟩
    · intro as4 found
      obtain rfl := Option.some.inj (listed.symm.trans found)
      exact validPath_newPath writable fun _ => rfl
    · exact countOf_putAttr (countOf_putAttr single)
    · rw [listed, ← front]
      have joined := @Restores.joined (narrowSegments attr.segments) suffix (by omega) dense
      rw [place] at joined
      exact joined (checkKept_narrow.trans uncut)

/-- The aggregator in place, with other values. -/
def withAggregator (asn : UInt32) (routerId : RouterId) (is4b : Bool) (attr : PAttr) : PAttr :=
  { attr with data := .aggregator asn routerId is4b }

theorem type_withAggregator {is4b : Bool} (attr : PAttr) (_ : attr.type = .aggregator) :
    (withAggregator asn routerId is4b attr).type = .aggregator := rfl

/-- The attributes of a message whose wide aggregator was made narrow. -/
def narrowAggregator (attrs : List (Option PAttr)) (asn : UInt32) (routerId : RouterId) : List (Option PAttr) :=
  changeFirst .aggregator (withAggregator (narrowAsn asn) routerId false)
    (putAttr attrs ⟨0xc0, .as4Aggregator asn routerId true⟩)

/-- The attributes of a message whose aggregator was restored. -/
def wideAggregator (attrs : List (Option PAttr)) (asn : UInt32) (routerId : RouterId) : List (Option PAttr) :=
  removeAttrType .as4Aggregator (changeFirst .aggregator (withAggregator asn routerId true) attrs)

theorem downgradeAggregator_gives {flags : UInt8}
    (held : update.findAttr .aggregator = some ⟨flags, .aggregator asn routerId true⟩) :
    Work.Gives (updateDowngradeAggregator update)
      { update with attrs := narrowAggregator update.attrs asn routerId } := by
  simp only [updateDowngradeAggregator, held, PAttr.aggregatorData, Bool.true_or, if_true]
  have decoded : PAttr.typeCode ⟨0xc0, .as4Aggregator asn routerId true⟩ ∈ decodedCodes :=
    show (18 : UInt8) ∈ decodedCodes by decide
  exact (Work.gives_ask 1).bind ((updateSetAttr_gives decoded).bind (Work.gives_pure _))

/-- A narrowed aggregator keeps its full AS in AS4_AGGREGATOR. -/
theorem firstOf_narrowAggregator {attrs : List (Option PAttr)} {routerId : RouterId}
    (held : firstOf .aggregator attrs = some attr) :
    firstOf .aggregator (narrowAggregator attrs asn routerId) =
      some (withAggregator (narrowAsn asn) routerId false attr) ∧
      firstOf .as4Aggregator (narrowAggregator attrs asn routerId) = some ⟨0xc0, .as4Aggregator asn routerId true⟩ := by
  refine ⟨?_, ?_⟩
  · have same : firstOf .aggregator (putAttr attrs ⟨0xc0, .as4Aggregator asn routerId true⟩) = some attr :=
      (firstOf_putAttr_other .as4Aggregator (by rfl) (by decide)).trans held
    rw [narrowAggregator, firstOf_changeFirst type_withAggregator, same]
    rfl
  · exact (firstOf_changeFirst_other type_withAggregator (by decide)).trans (firstOf_putAttr rfl)

theorem restoreAggregator_gives {as4 : PAttr} (held : update.findAttr .aggregator = some attr)
    (listed : update.findAttr .as4Aggregator = some as4) (data : as4.aggregatorData = (asn, routerId, true)) :
    Work.Gives (updateRestoreAggregator update) { update with attrs := wideAggregator update.attrs asn routerId } := by
  simp only [updateRestoreAggregator, held, listed, data]
  exact Work.gives_pure _

/-- A message whose wide path is made narrow, and is then restored, has the same path again, and so has its
aggregator the same AS number and router id. -/
theorem downgrade_restores (single : countOf .as4Path update.attrs ≤ 1) :
    (∀ flags segments narrow, update.findAttr .asPath = some ⟨flags, .asPath segments true⟩ →
      (updateDowngradeAsPath update).outcome = .ok narrow →
      (∀ asn ∈ pathAsns narrow.path, asn ≤ 65535) ∧
        ∃ restored, (updateRestoreAsPath narrow).outcome = .ok restored ∧ restored.findAttr .as4Path = none ∧
          Resplit segments restored.path) ∧
    (∀ flags asn routerId narrow, update.findAttr .aggregator = some ⟨flags, .aggregator asn routerId true⟩ →
      (updateDowngradeAggregator update).outcome = .ok narrow →
        ∃ restored flags, (updateRestoreAggregator narrow).outcome = .ok restored ∧
          restored.findAttr .aggregator = some ⟨flags, .aggregator asn routerId true⟩) := by
  refine ⟨fun flags segments narrow held done => ?_, fun flags asn routerId narrow held done => ?_⟩
  · obtain ⟨valid, attrs, narrowed, rfl⟩ := downgradeAsPath_yields held rfl (.ofOutcome done)
    obtain ⟨path, found, good, asns, listed, few, restored, restores, resplit⟩ := narrowed.restores valid single
    have found : UpdateMsg.findAttr { update with attrs := attrs } .asPath = some path := found
    refine ⟨?_, _, (restoreAsPath_gives found good listed restores).outcome, UpdateMsg.shadow_withPath few, ?_⟩
    · have same : UpdateMsg.path { update with attrs := attrs } = path.segments :=
        congrArg (fun held => (Option.map PAttr.segments held).getD []) found
      rw [same, asns]
      intro asn member
      obtain ⟨wide, -, rfl⟩ := mem_map.mp member
      exact narrowAsn_le wide
    · rw [UpdateMsg.path_withPath found]
      exact resplit
  · obtain rfl := (Work.Yields.ofOutcome done).unique (downgradeAggregator_gives held)
    obtain ⟨kept, listed⟩ := @firstOf_narrowAggregator ⟨flags, _⟩ asn update.attrs routerId held
    have kept : UpdateMsg.findAttr { update with attrs := narrowAggregator update.attrs asn routerId }
      .aggregator = _ := kept
    refine ⟨_, flags, (restoreAggregator_gives kept listed rfl).outcome, ?_⟩
    have same : firstOf .aggregator (wideAggregator (narrowAggregator update.attrs asn routerId) asn routerId) = _ :=
      (firstOf_removeAttrType_other (by decide)).trans (firstOf_changeFirst type_withAggregator)
    exact same.trans (congrArg (Option.map _) kept)

/-- A path with one wide AS number and a literal AS_TRANS, and a shadow that does not belong to it. -/
def sampleWidePath : UpdateMsg :=
  ⟨[], [some ⟨0x40, .asPath [⟨2, [100, 70000, 23456]⟩] true⟩, some ⟨0xc0, .as4Path [⟨2, [5]⟩] true⟩], []⟩

theorem downgrade_restores_sample : ∃ narrow restored, (updateDowngradeAsPath sampleWidePath).outcome = .ok narrow ∧
    narrow.path = [⟨2, [100, 23456, 23456]⟩] ∧ (updateRestoreAsPath narrow).outcome = .ok restored ∧
    Resplit sampleWidePath.path restored.path := by
  have single : countOf .as4Path sampleWidePath.attrs ≤ 1 := by decide
  obtain ⟨-, restored, done, -, resplit⟩ := (downgrade_restores single).1 0x40 [⟨2, [100, 70000, 23456]⟩] _ rfl rfl
  exact ⟨_, restored, rfl, rfl, done, resplit⟩

end Conversions

section Prepending

variable {update restored : UpdateMsg} {attr : PAttr} {segments result longer as4 : List AsPathSegment}
  {shadow : Option (List AsPathSegment)} {asn : UInt32} {listed asns : List UInt32}

/-- The shadow of a path does not lead to another path when this AS is put in front: it agrees with the end of the
path, or its length is not a number of AS_TRANS that makes one of the two restorations fill them in one by one. -/
def PrependSafe (segments : List AsPathSegment) (shadow : Option (List AsPathSegment)) (asn : UInt32) : Prop :=
  ∀ as4, shadow = some as4 →
    suffixMatchesAs4 (pathAsns segments) (pathAsns as4) ((pathAsns segments).length - (pathAsns as4).length) = true ∨
      (65535 < asn ∨ asn = asTrans → (pathAsns segments).count asTrans ≠ (pathAsns as4).length) ∧
        (asn = asTrans → (pathAsns segments).count asTrans + 1 ≠ (pathAsns as4).length)

theorem suffixMatches_prepended (short : listed.length ≤ asns.length) :
    suffixMatchesAs4 (asn :: asns) listed ((asn :: asns).length - listed.length) =
      suffixMatchesAs4 asns listed (asns.length - listed.length) := by
  rw [length_cons, Nat.succ_sub short]
  rfl

/-- A path of nothing but AS_TRANS agrees with every shadow of its length. -/
theorem suffixMatches_all (all : asns.count asTrans = asns.length) (same : listed.length = asns.length) :
    suffixMatchesAs4 asns listed (asns.length - listed.length) = true := by
  rw [same, Nat.sub_self, suffixMatches_iff, drop_zero, forall₂_iff_zip]
  exact ⟨same.symm, fun member => .inl (count_eq_length.mp all _ (of_mem_zip member).1).symm⟩

theorem length_prepended (short : (pathAsns as4).length ≤ (pathAsns segments).length) :
    (pathAsns (prepended segments asn)).length - (pathAsns as4).length =
      (pathAsns segments).length - (pathAsns as4).length + 1 := by
  rw [pathAsns_prepended, length_cons, Nat.succ_sub short]

/-- What decides about the restoration, without the comparison of the lengths. -/
theorem sparse_iff : Sparse segments as4 ↔ (pathAsns segments).count asTrans = (pathAsns as4).length ∧
    suffixMatchesAs4 (pathAsns segments) (pathAsns as4)
      ((pathAsns segments).length - (pathAsns as4).length) = false := by
  refine ⟨fun sparse => sparse.2, fun ⟨count, unlike⟩ => ⟨fun same => ?_, count, unlike⟩⟩
  rw [suffixMatches_all (count.trans same) same] at unlike
  cases unlike

theorem sparse_prepended (short : (pathAsns as4).length ≤ (pathAsns segments).length) :
    Sparse (prepended segments asn) as4 ↔ (asn :: pathAsns segments).count asTrans = (pathAsns as4).length ∧
      suffixMatchesAs4 (pathAsns segments) (pathAsns as4)
        ((pathAsns segments).length - (pathAsns as4).length) = false := by
  rw [sparse_iff, pathAsns_prepended, suffixMatches_prepended short]

theorem Restores.short (restores : Restores segments (some as4) result) :
    (pathAsns as4).length ≤ (pathAsns segments).length := by
  cases restores with
  | filled short _ | joined short _ _ => exact short

theorem Restores.shadow_short (restores : Restores segments shadow result) :
    ∀ as4, shadow = some as4 → (pathAsns as4).length ≤ (pathAsns segments).length :=
  fun _ same => Restores.short (same ▸ restores)

/-- The AS numbers that the end of the path was replaced by stand behind what is left of it. -/
theorem Restores.joined_asns (restores : Restores segments (some as4) result) (dense : ¬ Sparse segments as4) :
    pathAsns result =
      (pathAsns segments).take ((pathAsns segments).length - (pathAsns as4).length) ++ pathAsns as4 := by
  cases restores with
  | filled _ sparse => exact absurd sparse dense
  | joined => rw [pathAsns_append, pathAsns_kept]

theorem Restores.filled_asns (restores : Restores segments (some as4) result) (sparse : Sparse segments as4) :
    pathAsns result = pathAsns (fillSegments segments (pathAsns as4)) := by
  rw [restores.unique (.filled restores.short sparse)]

theorem asns_of_hops (same : hops result = .one asn :: hops segments) : pathAsns result = asn :: pathAsns segments := by
  rw [← flatMap_hops, same, flatMap_cons, flatMap_hops]
  rfl

/-- A prepended AS comes first in the restored path. -/
theorem Restores.prepend_small (writable : Writable segments) (restores : Restores segments shadow result)
    (safe : PrependSafe segments shadow asn) :
    ∃ longer, Restores (prepended segments asn) shadow longer ∧ hops longer = .one asn :: hops result := by
  have fits {as4 : List AsPathSegment} (short : (pathAsns as4).length ≤ (pathAsns segments).length) :
      (pathAsns as4).length ≤ (pathAsns (prepended segments asn)).length := by
    rw [pathAsns_prepended]
    exact Nat.le_succ_of_le short
  cases restores with
  | alone => exact ⟨_, .alone, hops_prepended⟩
  | @filled as4 short sparse =>
    obtain ⟨-, count, unlike⟩ := sparse
    have real : asn ≠ asTrans := by
      rcases safe as4 rfl with same | ⟨few, -⟩
      · cases same.symm.trans unlike
      · exact fun trans => few (.inr trans) count
    have again : Sparse (prepended segments asn) as4 := by
      rw [sparse_prepended short, count_cons_of_ne real]
      exact ⟨count, unlike⟩
    exact ⟨_, .filled (fits short) again, hops_fill_prepended real _⟩
  | @joined as4 short dense uncut =>
    have again : ¬ Sparse (prepended segments asn) as4 := by
      rw [sparse_prepended short]
      rintro ⟨count, unlike⟩
      by_cases trans : asn = asTrans
      · rcases safe as4 rfl with same | ⟨-, few⟩
        · cases same.symm.trans unlike
        · rw [trans, count_cons_self] at count
          exact few trans count
      · rw [count_cons_of_ne trans] at count
        exact dense (sparse_iff.mpr ⟨count, unlike⟩)
    have joined := Restores.joined (fits short) again
    rw [length_prepended short] at joined
    refine ⟨_, joined (checkKept_prepended writable uncut), ?_⟩
    rw [hops_append, hops_append, hops_kept_prepended]
    rfl

/-- A narrow AS in front is only safe: otherwise one of the two restorations fills the path and the other one replaces
its end. -/
theorem Restores.prepend_safe (restores : Restores segments shadow result) (small : ¬ 65535 < asn)
    (again : Restores (prepended segments asn) shadow longer) (same : hops longer = .one asn :: hops result) :
    PrependSafe segments shadow asn := by
  rintro as4 rfl
  have short := restores.short
  have asns := asns_of_hops same
  refine or_iff_not_imp_left.mpr fun differs => ?_
  have unlike := Bool.eq_false_iff.mpr differs
  have longest : (pathAsns (prepended segments asn)).take
    ((pathAsns (prepended segments asn)).length - (pathAsns as4).length) =
      asn :: (pathAsns segments).take ((pathAsns segments).length - (pathAsns as4).length) := by
    rw [length_prepended short, pathAsns_prepended, take_succ_cons]
  refine ⟨fun kind count => ?_, fun trans count => ?_⟩
  · obtain rfl := kind.resolve_left small
    have dense : ¬ Sparse (prepended segments asTrans) as4 := by
      rw [sparse_prepended short, count_cons_self]
      omega
    rw [again.joined_asns dense, longest, cons_append, restores.filled_asns (sparse_iff.mpr ⟨count, unlike⟩)] at asns
    exact fillSegments_ne count.le unlike (cons.inj asns).2.symm
  · subst trans
    have dense : ¬ Sparse segments as4 := by
      rw [sparse_iff]
      omega
    have sparse : Sparse (prepended segments asTrans) as4 := by
      rw [sparse_prepended short, count_cons_self]
      exact ⟨count, unlike⟩
    rw [again.filled_asns sparse, restores.joined_asns dense, ← cons_append, ← longest] at asns
    exact fillSegments_ne sparse.2.1.le sparse.2.2 asns

/-- The shadow that a path gets with an AS number of four bytes in front. -/
def prependedShadow (segments : List AsPathSegment) (asn : UInt32) : Option (List AsPathSegment) → List AsPathSegment
  | none => prepended segments asn
  | some as4 => keptSegments (prepended segments asn) ((pathAsns segments).length + 1 - (pathAsns as4).length) ++ as4

theorem length_prependedShadow (short : ∀ as4, shadow = some as4 → (pathAsns as4).length ≤ (pathAsns segments).length) :
    (pathAsns (prependedShadow segments asn shadow)).length = (pathAsns segments).length + 1 := by
  rcases shadow with _ | as4
  · rw [prependedShadow, pathAsns_prepended]
    rfl
  · have := short as4 rfl
    rw [prependedShadow, pathAsns_append, pathAsns_kept, pathAsns_prepended, length_append, length_take, length_cons]
    omega

theorem writable_prependedShadow (writable : Writable segments) (shadows : ∀ as4, shadow = some as4 → Writable as4) :
    Writable (prependedShadow segments asn shadow) := by
  rcases shadow with _ | as4
  · exact writable_prepended writable
  · exact forall_mem_append.mpr ⟨writable_kept (writable_prepended writable), shadows as4 rfl⟩

/-- With an AS number of four bytes to come, the shadow is not filled in one by one. -/
theorem PrependSafe.dense (safe : PrependSafe segments (some as4) asn) (large : 65535 < asn) :
    ¬ Sparse segments as4 := by
  rintro ⟨-, count, unlike⟩
  rcases safe as4 rfl with same | ⟨few, -⟩
  · cases same.symm.trans unlike
  · exact few (.inl large) count

theorem restores_prependedShadow
    (short : ∀ as4, shadow = some as4 → (pathAsns as4).length ≤ (pathAsns segments).length) :
    Restores (prepended segments asTrans) (some (prependedShadow segments asn shadow))
      (prependedShadow segments asn shadow) := by
  have total : (pathAsns (prependedShadow segments asn shadow)).length =
      (pathAsns (prepended segments asTrans)).length := by
    rw [pathAsns_prepended]
    exact length_prependedShadow short
  have joined := Restores.joined total.le fun sparse => sparse.1 total
  rw [total, Nat.sub_self, keptSegments_zero] at joined
  refine joined ?_
  cases prepended segments asTrans <;> rfl

/-- A wide AS in front is safe exactly when its shadow stands for the AS and the restored path. -/
theorem Restores.prepend_wide (restores : Restores segments shadow result) (large : 65535 < asn) :
    hops (prependedShadow segments asn shadow) = .one asn :: hops result ↔ PrependSafe segments shadow asn := by
  have real : asn ≠ asTrans := by
    rintro rfl
    exact absurd large (by decide)
  constructor
  · rintro same as4 rfl
    refine or_iff_not_imp_left.mpr fun differs => ⟨fun _ count => ?_, fun trans => absurd trans real⟩
    have unlike := Bool.eq_false_iff.mpr differs
    have asns := asns_of_hops same
    rw [prependedShadow, Nat.succ_sub restores.short, pathAsns_append, pathAsns_kept, pathAsns_prepended,
      take_succ_cons,
      cons_append, restores.filled_asns (sparse_iff.mpr ⟨count, unlike⟩)] at asns
    exact fillSegments_ne count.le unlike (cons.inj asns).2.symm
  · intro safe
    cases restores with
    | alone => exact hops_prepended
    | filled short sparse => exact absurd sparse (safe.dense large)
    | @joined as4 short dense uncut =>
      rw [prependedShadow, Nat.succ_sub short, hops_append, hops_append, hops_kept_prepended]
      rfl

/-- No set is cut when the shadow takes the place of the end of the path with another AS in front. -/
def Uncut (segments : List AsPathSegment) (shadow : Option (List AsPathSegment)) : Prop :=
  ∀ as4, shadow = some as4 →
    checkKept (prepended segments asTrans) ((pathAsns segments).length - (pathAsns as4).length + 1) = .ok ()

theorem Restores.uncut (restores : Restores segments shadow result) (writable : Writable segments) (large : 65535 < asn)
    (safe : PrependSafe segments shadow asn) : Uncut segments shadow := by
  rintro as4 rfl
  cases restores with
  | filled _ sparse => exact absurd sparse (safe.dense large)
  | joined _ _ uncut => exact checkKept_prepended writable uncut

/-- An AS is put in front of a path whose shadow need not change. -/
theorem prependAsn_gives {wide : Bool} (held : update.findAttr .asPath = some attr)
    (width : parseAs4Context attr = wide) (valid : ValidPath attr)
    (alone : wide = true → update.findAttr .as4Path = none) (fits : wide = true ∨ ¬ 65535 < asn) :
    Work.Gives (updatePrependAsn asn wide update)
      { update with attrs := putAttr update.attrs (newPath .asPath (prepended attr.segments asn) wide) } := by
  have allowed : ¬ (wide && (update.findAttr .as4Path).isSome) = true := by
    intro clash
    obtain ⟨rfl, some⟩ := Bool.and_eq_true_iff.mp clash
    rw [alone rfl] at some
    cases some
  have same : ¬ (update.findAttr .asPath).any (fun attr => parseAs4Context attr != wide) = true := by
    rw [held, Option.any_some, width, bne_self_eq_false]
    exact Bool.false_ne_true
  have listed : (if (wide || decide (asn ≤ 65535)) = true then asn else asTrans) = asn := by
    rcases fits with rfl | small
    · rfl
    · exact if_pos (by rw [decide_eq_true (UInt32.not_lt.mp small), Bool.or_true])
  have unshadowed : ¬ (!wide && decide (65535 < asn)) = true := by
    rcases fits with rfl | small
    · exact Bool.false_ne_true
    · rw [decide_eq_false small, Bool.and_false]
      exact Bool.false_ne_true
  refine .check allowed (.check same ?_)
  rw [held, listed]
  refine (Work.gives_ofExcept valid.counted).bind ((clonePathAsType_gives valid .asPath wide).bind ?_)
  refine prependToPath_gives.bind ?_
  rw [if_neg unshadowed]
  exact updateSetAttr_gives (newPath_decoded wide)

/-- The shadow that goes with an AS number of four bytes. -/
theorem prependShadow_gives (valid : ValidPath attr)
    (shadows : ∀ as4, update.findAttr .as4Path = some as4 → ValidPath as4)
    (restores : Restores attr.segments update.shadow result) (uncut : Uncut attr.segments update.shadow) :
    Work.Gives (prependShadow update (pathAsns attr.segments).length
      (newPath .asPath (prepended attr.segments asTrans) false) asn)
      (newPath .as4Path (prependedShadow attr.segments asn update.shadow) true) := by
  have longer : ValidPath (newPath .asPath (prepended attr.segments asTrans) false) :=
    validPath_newPath (writable_prepended valid.writable) nofun
  rw [UpdateMsg.shadow] at restores uncut ⊢
  refine (Work.gives_ofExcept longer.counted).bind ?_
  rcases found : update.findAttr .as4Path with _ | as4
  · refine (clonePathAsType_gives longer .as4Path true).bind (Work.gives_of_eq ?_)
    exact congrArg (newPath .as4Path · true) (setFirstAsn_prepended asTrans)
  · rw [found] at restores uncut
    have listed := shadows as4 found
    have short := restores.short
    refine (Work.gives_ofExcept listed.counted).bind (.check (Nat.not_lt_of_le short) ?_)
    refine (clonePathAsType_gives longer .as4Path true).bind ?_
    have start : (pathAsns (prepended attr.segments asTrans)).length - (pathAsns as4.segments).length =
        (pathAsns attr.segments).length - (pathAsns as4.segments).length + 1 := length_prepended short
    have uncut := uncut as4.segments rfl
    rw [← start] at uncut
    refine (rebuild_gives longer.writable listed.writable uncut (Nat.sub_le _ _)).bind (Work.gives_of_eq ?_)
    show newPath .as4Path (setFirstAsn asn (keptSegments (prepended attr.segments asTrans)
      ((pathAsns (prepended attr.segments asTrans)).length - (pathAsns as4.segments).length) ++ as4.segments)) true = _
    rw [start, setFirstAsn_kept, Option.map_some, prependedShadow, Nat.succ_sub short]

/-- A longer shadow is made only if no set is cut. -/
theorem prependShadow_uncut (valid : ValidPath attr)
    (shadows : ∀ as4, update.findAttr .as4Path = some as4 → ValidPath as4)
    (restores : Restores attr.segments update.shadow result) {shadow : PAttr} (yields : Work.Yields
      (prependShadow update (pathAsns attr.segments).length (newPath .asPath (prepended attr.segments asTrans) false)
        asn) shadow) :
    Uncut attr.segments update.shadow := by
  intro segments same
  obtain ⟨as4, found, rfl⟩ := Option.map_eq_some_iff.mp same
  have longer : ValidPath (newPath .asPath (prepended attr.segments asTrans) false) :=
    validPath_newPath (writable_prepended valid.writable) nofun
  have listed := shadows as4 found
  rw [same] at restores
  simp only [prependShadow, found] at yields
  obtain ⟨count, counted, yields⟩ := yields.bind
  obtain rfl := Except.ok.inj ((Work.yields_ofExcept counted).symm.trans longer.counted)
  obtain ⟨as4Count, counted, yields⟩ := yields.bind
  obtain rfl := Except.ok.inj ((Work.yields_ofExcept counted).symm.trans listed.counted)
  obtain ⟨-, yields⟩ := yields.check
  obtain ⟨clone, cloned, yields⟩ := yields.bind
  obtain rfl := cloned.unique (clonePathAsType_gives longer .as4Path true)
  obtain ⟨segments, made, -⟩ := yields.bind
  obtain ⟨uncut, -⟩ := rebuild_yields longer.writable listed.writable (Nat.sub_le _ _) made
  rw [← length_prepended restores.short]
  exact uncut

section

variable (held : update.findAttr .asPath = some attr) (width : parseAs4Context attr = false)

include held width

/-- For an AS number of four bytes, all that can fail is the shadow. -/
theorem updatePrependAsn_wide (large : 65535 < asn) : updatePrependAsn asn false update = (do
      let original ← Work.ofExcept (validateAsPathData attr false)
      let next ← clonePathAsType .asPath attr false
      let segments ← prependToPath next.segments asTrans
      let shadow ← prependShadow update original (newPath .asPath segments false) asn
      updateSetAttrPair update (newPath .asPath segments false) shadow) := by
  have same : ¬ (some attr).any (fun attr => parseAs4Context attr != false) = true := by
    rw [Option.any_some, width, bne_self_eq_false]
    exact Bool.false_ne_true
  have listed : ¬ (false || decide (asn ≤ 65535)) = true := by
    rw [decide_eq_false (UInt32.not_le.mpr large)]
    exact Bool.false_ne_true
  have wide : (!false && decide (65535 < asn)) = true := by rw [decide_eq_true large]; rfl
  rw [updatePrependAsn]
  simp only [if_neg listed, if_pos wide, held]
  exact (if_neg Bool.false_ne_true).trans (if_neg same)

/-- A wide AS is put in front of a path whose shadow can be extended. -/
theorem prependAsn_shadow (valid : ValidPath attr)
    (shadows : ∀ as4, update.findAttr .as4Path = some as4 → ValidPath as4)
    (restores : Restores attr.segments update.shadow result) (large : 65535 < asn)
    (uncut : Uncut attr.segments update.shadow) :
    Work.Gives (updatePrependAsn asn false update) ⟨update.withdrawn,
      putPaths update.attrs (prepended attr.segments asTrans) (prependedShadow attr.segments asn update.shadow),
        update.nlri⟩ := by
  rw [updatePrependAsn_wide held width large]
  refine (Work.gives_ofExcept valid.counted).bind
    ((clonePathAsType_gives valid .asPath false).bind (prependToPath_gives.bind ?_))
  exact (prependShadow_gives valid shadows restores uncut).bind (updateSetAttrPair_gives (newPath_apart _ _))

/-- A large AS is prepended only if no set is cut. -/
theorem prependAsn_uncut (valid : ValidPath attr) (shadows : ∀ as4, update.findAttr .as4Path = some as4 → ValidPath as4)
    (restores : Restores attr.segments update.shadow result) (large : 65535 < asn) {after : UpdateMsg}
    (yields : Work.Yields (updatePrependAsn asn false update) after) : Uncut attr.segments update.shadow := by
  rw [updatePrependAsn_wide held width large] at yields
  obtain ⟨original, counted, yields⟩ := yields.bind
  obtain rfl := Except.ok.inj ((Work.yields_ofExcept counted).symm.trans valid.counted)
  obtain ⟨clone, cloned, yields⟩ := yields.bind
  obtain rfl := cloned.unique (clonePathAsType_gives valid .asPath false)
  obtain ⟨segments, put, yields⟩ := yields.bind
  obtain rfl := put.unique prependToPath_gives
  obtain ⟨shadow, made, -⟩ := yields.bind
  exact prependShadow_uncut valid shadows restores made

end

/-- What is restored from a message with other path attributes. -/
theorem restored_path {attrs : List (Option PAttr)} {shadow : Option PAttr} {again : UpdateMsg}
    (held : firstOf .asPath attrs = some attr) (listed : firstOf .as4Path attrs = shadow)
    (done : (updateRestoreAsPath { update with attrs := attrs }).outcome = .ok again) :
    Restores attr.segments (shadow.map PAttr.segments) again.path := by
  subst listed
  have held : UpdateMsg.findAttr { update with attrs := attrs } .asPath = some attr := held
  obtain ⟨-, -, segments, restores, rfl⟩ := restoreAsPath_yields held (.ofOutcome done)
  rw [UpdateMsg.path_withPath held]
  exact restores

/-- An AS in front of a narrow path, with or without a shadow: what is restored from it is the AS followed by what is
restored from the path alone, exactly when the AS is safe for the shadow. -/
theorem prependAsn_restores (held : update.findAttr .asPath = some attr) (width : parseAs4Context attr = false)
    (done : (updateRestoreAsPath update).outcome = .ok restored) :
    (∃ longer again, (updatePrependAsn asn false update).outcome = .ok longer ∧
      (updateRestoreAsPath longer).outcome = .ok again ∧ hops again.path = .one asn :: hops restored.path) ↔
      PrependSafe attr.segments update.shadow asn := by
  obtain ⟨valid, shadows, result, restores, rfl⟩ := restoreAsPath_yields held (.ofOutcome done)
  rw [UpdateMsg.path_withPath held]
  have longerWritable : ∀ asn, Writable (prepended attr.segments asn) := fun _ => writable_prepended valid.writable
  by_cases large : 65535 < asn
  · have again := @restores_prependedShadow attr.segments update.shadow asn restores.shadow_short
    obtain ⟨found, listed⟩ := @firstOf_putPaths (prepended attr.segments asTrans)
      (prependedShadow attr.segments asn update.shadow) update.attrs
    have gives := prependAsn_shadow held width valid shadows restores large
    rw [← restores.prepend_wide large]
    constructor
    · rintro ⟨after, last, prepends, restored, same⟩
      have uncut := prependAsn_uncut held width valid shadows restores large (.ofOutcome prepends)
      obtain rfl := (Work.Yields.ofOutcome prepends).unique (gives uncut)
      rw [again.unique (restored_path found listed restored)]
      exact same
    · intro same
      have uncut := restores.uncut valid.writable large ((restores.prepend_wide large).mp same)
      have listedWritable := @writable_prependedShadow attr.segments update.shadow asn valid.writable fun as4 same => by
        obtain ⟨held, found, rfl⟩ := Option.map_eq_some_iff.mp same
        exact (shadows held found).writable
      obtain ⟨last, restored, path⟩ :=
        restoreAsPath_path update found listed (validPath_newPath (longerWritable asTrans) nofun)
        (fun as4 same => Option.some.inj same ▸ validPath_newPath listedWritable fun _ => rfl) again
      exact ⟨_, last, (gives uncut).outcome, restored, path ▸ same⟩
  · have gives := prependAsn_gives held width valid nofun (.inr large)
    have found : firstOf .asPath (putAttr update.attrs (newPath .asPath (prepended attr.segments asn) false)) =
        some (newPath .asPath (prepended attr.segments asn) false) := firstOf_putAttr rfl
    have listed : firstOf .as4Path (putAttr update.attrs (newPath .asPath (prepended attr.segments asn) false)) =
        update.findAttr .as4Path := firstOf_putAttr_other .asPath rfl (by decide)
    constructor
    · rintro ⟨after, last, prepends, restored, same⟩
      obtain rfl := (Work.Yields.ofOutcome prepends).unique gives
      exact restores.prepend_safe large (restored_path found listed restored) same
    · intro safe
      obtain ⟨result, again, same⟩ := restores.prepend_small valid.writable safe
      obtain ⟨last, restored, path⟩ :=
        restoreAsPath_path update found listed (validPath_newPath (longerWritable asn) nofun)
        shadows again
      exact ⟨_, last, gives.outcome, restored, path ▸ same⟩

/-- A narrow path with a shadow. -/
def sampleNarrowPath (asns listed : List UInt32) : UpdateMsg :=
  ⟨[], [some ⟨0x40, .asPath [⟨2, asns⟩] false⟩, some ⟨0xc0, .as4Path [⟨2, listed⟩] true⟩], []⟩

theorem prependAsn_restores_sample : ∃ longer again,
    (updatePrependAsn 80000 false (sampleNarrowPath [100, 23456] [70000])).outcome = .ok longer ∧
      (updateRestoreAsPath longer).outcome = .ok again ∧ hops again.path = [.one 80000, .one 100, .one 70000] := by
  refine (@prependAsn_restores (sampleNarrowPath [100, 23456] [70000]) _ ⟨0x40, .asPath [⟨2, [100, 23456]⟩] false⟩ 80000
    rfl rfl rfl).mpr ?_
  intro as4 same
  cases same
  exact .inl (by decide)

/-- AS_TRANS was filled in at the front, but with another AS the shadow replaces the end of the path. -/
theorem prependAsn_moves_shadow : ∃ restored longer again,
    (updateRestoreAsPath (sampleNarrowPath [23456, 100] [70000])).outcome = .ok restored ∧
      hops restored.path = [.one 70000, .one 100] ∧
      (updatePrependAsn 80000 false (sampleNarrowPath [23456, 100] [70000])).outcome = .ok longer ∧
      (updateRestoreAsPath longer).outcome = .ok again ∧ hops again.path = [.one 80000, .one 23456, .one 70000] :=
  ⟨_, _, _, rfl, rfl, rfl, rfl, rfl⟩

end Prepending

end Libbgp
