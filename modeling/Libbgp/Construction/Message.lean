/-
The message code that a session calls before it sends: copies, AS paths in both widths, and the encoder.
-/

import Libbgp.Construction.ApplyUpdate
import Libbgp.Construction.Wire

namespace Libbgp

open Library

/-- An operation of the message code from the work that it does. -/
def MessageOp.ofWork (work : UpdateMsg → Work UpdateMsg) : MessageOp where
  requests update := ((work update).run.run 0).2
  result update := ((work update).run.run 0).1.mapError Subtype.val
  fails update err failed := by
    rcases outcome : ((work update).run.run 0).1 with fault | value
    · rw [outcome] at failed
      cases failed
      exact fault.2
    · rw [outcome] at failed
      cases failed

/-- `fsm_pattr_parse_as4_context` -/
def parseAs4Context (attr : PAttr) : Bool :=
  match attr.data with
  | .asPath _ is4b | .aggregator _ _ is4b => is4b
  | .as4Path _ _ | .as4Aggregator _ _ _ => true
  | _ => false

/-- `fsm_clone_pattr`: the attribute is written and parsed again. -/
def clonePattr : Option PAttr → Work PAttr
  | none => throw .invalid
  | some attr => do
      let bytes ← Work.ofExcept (pattrWrite attr bgpMaxPacketLen)
      Work.ask 1
      let (copy, rest) ← pattrParseAs4 (parseAs4Context attr) bytes
      if rest.isEmpty then pure copy else throw .badLen

/-- The attributes of a copy are added one by one. -/
def cloneAttrs : List (Option PAttr) → List (Option PAttr) → Work (List (Option PAttr))
  | copied, [] => pure copied
  | copied, attr :: rest => do
      let copy ← clonePattr attr
      if copied.any fun other => other.any (·.typeCode == copy.typeCode) then throw .existing
      else do
        Work.ask 1
        cloneAttrs (copied ++ [some copy]) rest

/-- The prefixes of a copy are added one by one. -/
def clonePrefixes (prefixes : List (Prefix 32)) : Work (List (Prefix 32)) :=
  prefixes.mapM fun pfx =>
    if 32 < pfx.len then throw .badLen
    else do
      Work.ask 1
      pure pfx

/-- `fsm_clone_update` -/
def cloneUpdateMsg (update : UpdateMsg) : Work UpdateMsg := do
  let withdrawn ← clonePrefixes update.withdrawn
  let attrs ← cloneAttrs [] update.attrs
  let nlri ← clonePrefixes update.nlri
  pure ⟨withdrawn, attrs, nlri⟩

/-- The segments of a path attribute. -/
def PAttr.segments (attr : PAttr) : List AsPathSegment :=
  match attr.data with
  | .asPath segments _ | .as4Path segments _ => segments
  | _ => []

/-- The AS numbers of a path in order. -/
def pathAsns (segments : List AsPathSegment) : List UInt32 := segments.flatMap AsPathSegment.asns

/-- `libbgp_pattr_new` with the segments of a path. -/
def newPath (type : PAttrType) (segments : List AsPathSegment) (is4b : Bool) : PAttr :=
  if type = .as4Path then ⟨0xc0, .as4Path segments is4b⟩ else ⟨0x40, .asPath segments is4b⟩

/-- Write into the first attribute of a kind. -/
def changeFirst (type : PAttrType) (change : PAttr → PAttr) : List (Option PAttr) → List (Option PAttr)
  | [] => []
  | none :: rest => none :: changeFirst type change rest
  | some attr :: rest => if attr.type = type then some (change attr) :: rest
    else some attr :: changeFirst type change rest

/-- `update_remove_attr_type` -/
def removeAttrType (type : PAttrType) (attrs : List (Option PAttr)) : List (Option PAttr) :=
  attrs.eraseP fun attr => attr.any (·.type == type)

/-- `update_set_attr` -/
def updateSetAttr (update : UpdateMsg) (attr : PAttr) : Work UpdateMsg :=
  if (update.findAttr attr.type).isSome then
    pure { update with attrs := changeFirst attr.type (fun _ => attr) update.attrs }
  else if update.attrs.any fun other => other.any (·.typeCode == attr.typeCode) then throw .existing
  else do
    Work.ask 1
    pure { update with attrs := update.attrs ++ [some attr] }

/-- `update_set_attr_pair`: both places are reserved before either is written. -/
def updateSetAttrPair (update : UpdateMsg) (first second : PAttr) : Work UpdateMsg := do
  let put := fun (attrs : List (Option PAttr)) (attr : PAttr) =>
    if (update.findAttr attr.type).isSome then changeFirst attr.type (fun _ => attr) attrs else attrs ++ [some attr]
  Work.ask (if (update.findAttr first.type).isSome && (update.findAttr second.type).isSome then 0 else 1)
  pure { update with attrs := put (put update.attrs first) second }

/-- The requests for a copy of some segments; an empty segment needs no array. -/
def segmentRequests (segments : List AsPathSegment) : Nat :=
  (if segments.isEmpty then 0 else 1) + segments.countP fun segment => !segment.asns.isEmpty

/-- `update_clone_path_as_type` -/
def clonePathAsType (type : PAttrType) (source : PAttr) (is4b : Bool) : Work PAttr := do
  Work.ask 1
  let _ ← Work.ofExcept (validateAsPathData source false)
  Work.ask (segmentRequests source.segments)
  pure (newPath type source.segments is4b)

/-- `update_prepend_to_path` -/
def prependToPath (segments : List AsPathSegment) (asn : UInt32) : Work (List AsPathSegment) :=
  match segments with
  | segment :: rest =>
    if segment.type = 2 ∧ segment.asns.length < 255 then do
      Work.ask 1
      pure ({ segment with asns := asn :: segment.asns } :: rest)
    else do
      Work.ask 2
      pure (⟨2, [asn]⟩ :: segment :: rest)
  | [] => do
      Work.ask 2
      pure [⟨2, [asn]⟩]

/-- `update_copy_segment_prefix` -/
def copySegmentPrefix (segment : AsPathSegment) (count : Nat) : Work AsPathSegment :=
  if segment.asns.length < count || !segmentWritable segment then throw .badLen
  else do
    Work.ask (if count = 0 then 0 else 1)
    pure { segment with asns := segment.asns.take count }

/-- The first loop of `update_rebuild_as_path_from_as4_suffix`: a set must not be cut. -/
def checkKept : List AsPathSegment → Nat → Except Fault Unit
  | _, 0 => .ok ()
  | [], _ + 1 => .ok ()
  | segment :: rest, left + 1 =>
    if segment.type < 1 || 2 < segment.type then .error .badLen
    else if left + 1 < segment.asns.length && segment.type == 1 then .error .invalid
    else checkKept rest (left + 1 - segment.asns.length)

/-- The second loop: the AS numbers that stay in front. -/
def keepAsns : List AsPathSegment → Nat → Work (List AsPathSegment)
  | _, 0 => pure []
  | [], _ + 1 => pure []
  | segment :: rest, left + 1 =>
    if segment.asns.isEmpty then keepAsns rest (left + 1)
    else do
      let first ← copySegmentPrefix segment (min segment.asns.length (left + 1))
      let more ← keepAsns rest (left + 1 - segment.asns.length)
      pure (first :: more)

/-- `update_rebuild_as_path_from_as4_suffix` -/
def rebuildAsPathFromAs4Suffix (segments as4 : List AsPathSegment) (start : Nat) : Work (List AsPathSegment) := do
  Work.ofExcept (checkKept segments start)
  if segments.isEmpty && start != 0 then throw .badLen
  else do
    Work.ask (if start = 0 && as4.isEmpty then 0 else 1)
    let kept ← keepAsns segments start
    let tail ← as4.mapM fun segment => copySegmentPrefix segment segment.asns.length
    pure (kept ++ tail)

/-- `update_as_path_suffix_matches_as4` -/
def suffixMatchesAs4 (path as4 : List UInt32) (start : Nat) : Bool :=
  let suffix := path.drop start
  suffix.length == as4.length && (suffix.zip as4).all fun pair => pair.1 == asTrans || pair.1 == pair.2

/-- The replacement of each AS_TRANS by the next listed AS number. -/
def fillAsTrans : List UInt32 → List UInt32 → List UInt32 × List UInt32
  | [], as4 => ([], as4)
  | asn :: rest, as4 =>
    if asn = asTrans then
      match as4 with
      | [] => ([], [])
      | real :: as4 => let (asns, left) := fillAsTrans rest as4; (real :: asns, left)
    else let (asns, left) := fillAsTrans rest as4; (asn :: asns, left)

def fillSegments : List AsPathSegment → List UInt32 → List AsPathSegment
  | [], _ => []
  | segment :: rest, as4 =>
    let (asns, left) := fillAsTrans segment.asns as4
    { segment with asns := asns } :: fillSegments rest left

/-- `update_restore_as_path_sparse` -/
def restoreAsPathSparse (asPath as4Path : PAttr) : Work (List AsPathSegment) := do
  let _ ← Work.ofExcept (validateAsPathData asPath false)
  let as4Count ← Work.ofExcept (validateAsPathData as4Path false)
  if (pathAsns asPath.segments).count asTrans ≠ as4Count then throw .invalid
  else pure (fillSegments asPath.segments (pathAsns as4Path.segments))

/-- The path attribute in place, with other segments and wide AS numbers. -/
def widen (segments : List AsPathSegment) (attr : PAttr) : PAttr := { attr with data := .asPath segments true }

/-- `libbgp_update_restore_as_path` -/
def updateRestoreAsPath (update : UpdateMsg) : Work UpdateMsg :=
  match update.findAttr .asPath, update.findAttr .as4Path with
  | none, _ => pure update
  | some asPath, none => do
      let _ ← Work.ofExcept (validateAsPathData asPath false)
      pure { update with attrs := changeFirst .asPath (widen asPath.segments) update.attrs }
  | some asPath, some as4Path => do
      let as4Count ← Work.ofExcept (validateAsPathData as4Path false)
      let count ← Work.ofExcept (validateAsPathData asPath false)
      if count < as4Count then throw .invalid
      else do
        let start := count - as4Count
        let sparse := as4Count ≠ count ∧ (pathAsns asPath.segments).count asTrans = as4Count ∧
          suffixMatchesAs4 (pathAsns asPath.segments) (pathAsns as4Path.segments) start = false
        let segments ← if sparse then restoreAsPathSparse asPath as4Path
          else rebuildAsPathFromAs4Suffix asPath.segments as4Path.segments start
        pure { update with
          attrs := removeAttrType .as4Path (changeFirst .asPath (widen segments) update.attrs) }

/-- The segments from the given AS number on, in `update_clone_path_suffix_as_type`; a set must not be cut. -/
def suffixSegments (start : Nat) : Nat → List AsPathSegment → Except Fault (List AsPathSegment)
  | _, [] => .ok []
  | position, segment :: rest =>
    let next := position + segment.asns.length
    if next ≤ start then suffixSegments start next rest
    else if position < start && segment.type == 1 then .error .invalid
    else do
      let more ← suffixSegments start next rest
      .ok ({ segment with asns := segment.asns.drop (start - position) } :: more)

/-- `update_clone_path_suffix_as_type` for the shadow of a path. -/
def clonePathSuffix (source : PAttr) (start : Nat) : Work PAttr := do
  let count ← Work.ofExcept (validateAsPathData source false)
  if count ≤ start then throw .invalid
  else do
    let segments ← Work.ofExcept (suffixSegments start 0 source.segments)
    Work.ask (1 + segmentRequests segments)
    pure (newPath .as4Path segments true)

/-- AS numbers that need four bytes become AS_TRANS. -/
def narrowSegments (segments : List AsPathSegment) : List AsPathSegment :=
  segments.map fun segment => { segment with asns := segment.asns.map fun asn => if 65535 < asn then asTrans else asn }

/-- `libbgp_update_downgrade_as_path` -/
def updateDowngradeAsPath (update : UpdateMsg) : Work UpdateMsg :=
  match update.findAttr .asPath with
  | none => pure update
  | some asPath =>
    if !parseAs4Context asPath then pure update
    else do
      let _ ← Work.ofExcept (validateAsPathData asPath false)
      let next ← clonePathAsType .asPath asPath false
      let narrow := newPath .asPath (narrowSegments next.segments) false
      if (pathAsns asPath.segments).any (65535 < ·) then do
        let first := (pathAsns asPath.segments).findIdx (65535 < ·)
        let shadow ← clonePathSuffix asPath first
        updateSetAttrPair update narrow shadow
      else do
        let update ← updateSetAttr update narrow
        pure { update with attrs := removeAttrType .as4Path update.attrs }

/-- The fields of an aggregator. -/
def PAttr.aggregatorData (attr : PAttr) : UInt32 × RouterId × Bool :=
  match attr.data with
  | .aggregator asn routerId is4b | .as4Aggregator asn routerId is4b => (asn, routerId, is4b)
  | _ => (0, 0, false)

/-- `libbgp_update_restore_aggregator` -/
def updateRestoreAggregator (update : UpdateMsg) : Work UpdateMsg :=
  let removed := fun (update : UpdateMsg) => { update with attrs := removeAttrType .as4Aggregator update.attrs }
  match update.findAttr .aggregator, update.findAttr .as4Aggregator with
  | none, none => pure update
  | none, some as4 => do
      Work.ask 1
      let update ← updateSetAttr update ⟨0xc0, .aggregator as4.aggregatorData.1 as4.aggregatorData.2.1 true⟩
      pure (removed update)
  | some held, none =>
    pure { update with attrs := changeFirst .aggregator (fun attr =>
      { attr with data := .aggregator held.aggregatorData.1 held.aggregatorData.2.1 true }) update.attrs }
  | some _, some as4 =>
    pure (removed { update with attrs := changeFirst .aggregator (fun attr =>
      { attr with data := .aggregator as4.aggregatorData.1 as4.aggregatorData.2.1 true }) update.attrs })

/-- `libbgp_update_downgrade_aggregator` -/
def updateDowngradeAggregator (update : UpdateMsg) : Work UpdateMsg :=
  match update.findAttr .aggregator with
  | none => pure update
  | some held => do
      let (asn, routerId, is4b) := held.aggregatorData
      let update ← if is4b || 65535 < asn then do
          Work.ask 1
          updateSetAttr update ⟨0xc0, .as4Aggregator asn routerId true⟩
        else pure update
      pure { update with attrs := changeFirst .aggregator (fun attr =>
        { attr with data := .aggregator (if 65535 < asn then asTrans else asn) routerId false }) update.attrs }

/-- Put the real AS number into the first place of a path. -/
def setFirstAsn (asn : UInt32) : List AsPathSegment → List AsPathSegment
  | ⟨type, _ :: asns⟩ :: rest => ⟨type, asn :: asns⟩ :: rest
  | segments => segments

/-- The AS4_PATH of `libbgp_update_prepend_asn`, for an AS number that needs four bytes. -/
def prependShadow (update : UpdateMsg) (original : Nat) (next : PAttr) (asn : UInt32) : Work PAttr := do
  let count ← Work.ofExcept (validateAsPathData next false)
  let segments ← match update.findAttr .as4Path with
    | none => do
        let shadow ← clonePathAsType .as4Path next true
        pure shadow.segments
    | some as4Path => do
        let as4Count ← Work.ofExcept (validateAsPathData as4Path false)
        if original < as4Count then throw .invalid
        else do
          let shadow ← clonePathAsType .as4Path next true
          rebuildAsPathFromAs4Suffix shadow.segments as4Path.segments (count - as4Count)
  pure (newPath .as4Path (setFirstAsn asn segments) true)

/-- `libbgp_update_prepend_asn` -/
def updatePrependAsn (asn : UInt32) (wide : Bool) (update : UpdateMsg) : Work UpdateMsg :=
  let asPath := update.findAttr .asPath
  if wide && (update.findAttr .as4Path).isSome then throw .invalid
  else if asPath.any fun attr => parseAs4Context attr != wide then throw .invalid
  else do
    let (original, segments) ← match asPath with
      | none => do
          Work.ask 1
          pure (0, [])
      | some attr => do
          let original ← Work.ofExcept (validateAsPathData attr false)
          let next ← clonePathAsType .asPath attr wide
          pure (original, next.segments)
    let segments ← prependToPath segments (if wide || asn ≤ 65535 then asn else asTrans)
    let next := newPath .asPath segments wide
    if !wide && 65535 < asn then do
      let shadow ← prependShadow update original next asn
      updateSetAttrPair update next shadow
    else updateSetAttr update next

/-- The message code of the library. -/
def libbgpCode : MessageCode where
  cloneUpdate := .ofWork cloneUpdateMsg
  restoreAsPath := .ofWork updateRestoreAsPath
  downgradeAsPath := .ofWork updateDowngradeAsPath
  restoreAggregator := .ofWork updateRestoreAggregator
  downgradeAggregator := .ofWork updateDowngradeAggregator
  prependAsn asn wide := .ofWork (updatePrependAsn asn wide)
  packetWrite update :=
    match updatePacketWrite update with
    | .ok _ => .ok
    | .error fault => fault.1

end Libbgp
