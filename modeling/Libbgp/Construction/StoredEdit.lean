/-
The operations that edit the attributes of a message where they lie in memory, with every request for
memory and every write in its place.
-/

import Libbgp.Construction.StoredWire
import Libbgp.Construction.Message

namespace Libbgp

open Library

def Fault.nomem : Fault := ⟨.nomem, by decide⟩

/-- The attributes of a message that is edited, and the allocator. -/
structure Editing where
  attrs : List (Option StoredAttr)
  alloc : Allocator

/-- An operation on a message. What it wrote before it failed stays written. -/
abbrev Edit := ExceptT Fault (StateM Editing)

namespace Edit

/-- One request for memory. -/
def ask : Edit Unit := do
  let message ← get
  set { message with alloc := message.alloc.request.2 }
  if message.alloc.request.1 then pure () else throw .nomem

def ofExcept {A : Type} : Except Fault A → Edit A
  | .ok value => pure value
  | .error fault => throw fault

def failIf (wrong : Prop) [Decidable wrong] (fault : Fault) : Edit Unit := if wrong then throw fault else pure ()

def writeAttrs (change : List (Option StoredAttr) → List (Option StoredAttr)) : Edit Unit :=
  modify fun message => { message with attrs := change message.attrs }

end Edit

/-- The bytes of an entry of the attribute array, of a segment and of an AS number. -/
def attrEntrySize : Nat := 8
def segmentSize : Nat := 24
def asnEntrySize : Nat := 4

/-- `update_find_attr_index` -/
def updateFindAttrIndex (attrs : List (Option StoredAttr)) (type : Option PAttrType) : Option Nat :=
  attrs.findIdx? fun attr => attr.any (·.type == type)

/-- `libbgp_update_find_attr`, with the place of the attribute. -/
def updateFindAttr (attrs : List (Option StoredAttr)) (type : PAttrType) : Option (Nat × StoredAttr) := do
  let index ← updateFindAttrIndex attrs (some type)
  let attr ← attrs[index]?.join
  pure (index, attr)

/-- `update_remove_attr_type` -/
def storedRemoveAttrType (type : PAttrType) : Edit Unit :=
  Edit.writeAttrs fun attrs => (updateFindAttrIndex attrs (some type)).elim attrs attrs.eraseIdx

/-- Write into the attribute at a place. -/
def changeAt (index : Nat) (change : StoredAttr → StoredAttr) : Edit Unit :=
  Edit.writeAttrs fun attrs => attrs.modify index (Option.map change)

/-- `libbgp_update_add_attr`. The array doubles; the bound on its bytes is also the bound on its length. -/
def updateAddAttr (attr : StoredAttr) : Edit Unit := do
  let attrs := (← get).attrs
  let cap := if attrs.length = 0 then 8 else attrs.length * 2
  Edit.failIf (attrs.any fun other => other.any (·.typeCode == attr.typeCode)) .existing
  Edit.failIf (sizeMax / attrEntrySize < cap) .badLen
  Edit.ask
  Edit.writeAttrs (· ++ [some attr])

/-- `update_set_attr` -/
def storedSetAttr (attr : StoredAttr) : Edit Unit := do
  match updateFindAttrIndex (← get).attrs attr.type with
  | some index => changeAt index fun _ => attr
  | none => updateAddAttr attr

/-- One half of `update_set_attr_pair`, for the place that was found at the start. -/
def putAt (index : Option Nat) (attr : StoredAttr) : Edit Unit :=
  match index with
  | some index => changeAt index fun _ => attr
  | none => Edit.writeAttrs (· ++ [some attr])

/-- The attribute array grows by the places that are missing. -/
def reservePlaces (count missing : Nat) : Edit Unit :=
  if missing = 0 then pure ()
  else do
    Edit.failIf (sizeMax - missing < count || sizeMax / attrEntrySize < count + missing) .badLen
    Edit.ask

/-- `update_set_attr_pair` -/
def storedSetAttrPair (first second : StoredAttr) : Edit Unit := do
  let attrs := (← get).attrs
  Edit.failIf (first.typeCode = second.typeCode) .badLen
  let firstIndex := updateFindAttrIndex attrs first.type
  let secondIndex := updateFindAttrIndex attrs second.type
  reservePlaces attrs.length ((if firstIndex.isSome then 0 else 1) + if secondIndex.isSome then 0 else 1)
  putAt firstIndex first
  putAt secondIndex second

/-- The segments of a path attribute. -/
def StoredAttr.segments (attr : StoredAttr) : Block StoredSegment :=
  match attr.data with
  | .asPath segments _ | .as4Path segments _ => segments
  | _ => .missing 0

/-- The width flag of a path attribute. -/
def StoredAttr.is4b (attr : StoredAttr) : Bool :=
  match attr.data with
  | .asPath _ is4b | .as4Path _ is4b => is4b
  | _ => false

/-- A path attribute with other segments and another width. -/
def StoredAttr.withPath (attr : StoredAttr) (segments : Block StoredSegment) (is4b : Bool) : StoredAttr :=
  match attr.data with
  | .asPath _ _ => { attr with data := .asPath segments is4b }
  | .as4Path _ _ => { attr with data := .as4Path segments is4b }
  | _ => attr

/-- `libbgp_pattr_new` for the two kinds of path. -/
def newStoredPath (as4 : Bool) : Edit StoredAttr := do
  Edit.ask
  pure (if as4 then ⟨0xc0, 17, .as4Path (.missing 0) true⟩ else ⟨0x40, 2, .asPath (.missing 0) false⟩)

/-- The copy of a segment in `update_copy_as_path_data`; an empty segment gets no array. -/
def copySegment (segment : StoredSegment) : Edit StoredSegment :=
  if segment.asns.count = 0 then pure ⟨segment.type, .missing 0⟩
  else do
    Edit.failIf (sizeMax / asnEntrySize < segment.asns.count) .badLen
    Edit.ask
    pure ⟨segment.type, .held segment.asns.items⟩

/-- `update_copy_as_path_data` -/
def copyAsPathData (target source : StoredAttr) (is4b : Bool) : Edit StoredAttr := do
  let _ ← Edit.ofExcept (source.validateAsPathData false)
  if source.segments.count = 0 then pure (target.withPath (.missing 0) is4b)
  else do
    Edit.failIf (sizeMax / segmentSize < source.segments.count) .badLen
    Edit.ask
    let segments ← source.segments.items.mapM copySegment
    pure (target.withPath (.held segments) is4b)

/-- `update_clone_path_as_type` -/
def clonePathAs (as4 : Bool) (source : StoredAttr) (is4b : Bool) : Edit StoredAttr := do
  let clone ← newStoredPath as4
  copyAsPathData clone source is4b

/-- A segment of its own for an AS number, in front of the others. -/
def prependSegment (path : StoredAttr) (asn : UInt32) : Edit StoredAttr := do
  Edit.failIf (sizeMax / segmentSize - 1 < path.segments.count) .badLen
  Edit.ask
  Edit.ask
  pure (path.withPath (.held (⟨2, .held [asn]⟩ :: path.segments.items)) path.is4b)

/-- `update_prepend_to_path` -/
def prependTo (path : StoredAttr) (asn : UInt32) : Edit StoredAttr := do
  Edit.failIf path.segments.broken .badLen
  match path.segments.items with
  | [] => prependSegment path asn
  | segment :: rest =>
    if segment.type = 2 ∧ segment.asns.count < 255 then do
      Edit.failIf (segment.asns.broken ∨ sizeMax / asnEntrySize - 1 < segment.asns.count) .badLen
      Edit.ask
      pure (path.withPath (.held (⟨2, .held (asn :: segment.asns.items)⟩ :: rest)) path.is4b)
    else prependSegment path asn

/-- `update_copy_segment_prefix` -/
def copySegmentPrefixOf (segment : StoredSegment) (count : Nat) : Edit StoredSegment := do
  Edit.failIf (segment.asns.count < count || 255 < count || segment.type < 1 || 2 < segment.type ||
    255 < segment.asns.count || (count != 0 && segment.asns.broken)) .badLen
  if count = 0 then pure ⟨segment.type, .missing 0⟩
  else do
    Edit.failIf (sizeMax / asnEntrySize < count) .badLen
    Edit.ask
    pure ⟨segment.type, .held (segment.asns.items.take count)⟩

/-- The first loop of `update_rebuild_as_path_from_as4_suffix`: the segments that stay in front and their AS
numbers. A set must not be cut. -/
def countKept (start : Nat) : Nat → Nat → List StoredSegment → Except Fault (Nat × Nat)
  | count, kept, [] => .ok (count, kept)
  | count, kept, segment :: rest =>
    if start ≤ count then .ok (count, kept)
    else if segment.type < 1 || 2 < segment.type || segment.asns.broken then .error .badLen
    else if start < count + segment.asns.count && segment.type == 1 then .error .invalid
    else if sizeMax - segment.asns.count < count then .error .badLen
    else countKept start (count + segment.asns.count) (kept + 1) rest

/-- The body of the second loop: an empty rest of a segment is left out. -/
def keepOf (segment : StoredSegment) (keep : Nat) : Edit (List StoredSegment) :=
  if keep = 0 then pure []
  else do
    let copy ← copySegmentPrefixOf segment keep
    pure [copy]

/-- The second loop: the AS numbers that stay in front. -/
def keepFront (start : Nat) : Nat → List StoredSegment → Edit (List StoredSegment)
  | _, [] => pure []
  | position, segment :: rest =>
    if start ≤ position then pure []
    else do
      let first ← keepOf segment (min segment.asns.count (start - position))
      let more ← keepFront start (position + segment.asns.count) rest
      pure (first ++ more)

/-- `update_rebuild_as_path_from_as4_suffix`: the attribute as it is written at the end. -/
def rebuildFromAs4Suffix (asPath as4Path : StoredAttr) (start : Nat) : Edit StoredAttr := do
  Edit.failIf (!(asPath.type == some .asPath || asPath.type == some .as4Path) || as4Path.type != some .as4Path ||
    asPath.segments.broken || as4Path.segments.broken) .badLen
  let (count, kept) ← Edit.ofExcept (countKept start 0 0 asPath.segments.items)
  let total := kept + as4Path.segments.count
  Edit.failIf (count ≠ start ∧ kept = 0) .badLen
  Edit.failIf (sizeMax - as4Path.segments.count < kept) .badLen
  if total = 0 then pure (asPath.withPath (.missing 0) true)
  else do
    Edit.failIf (sizeMax / segmentSize < total) .badLen
    Edit.ask
    let front ← keepFront start 0 asPath.segments.items
    let suffix ← as4Path.segments.items.mapM fun segment => copySegmentPrefixOf segment segment.asns.count
    pure (asPath.withPath (.held (front ++ suffix)) true)

/-- The AS numbers of some segments in order. -/
def storedAsns (segments : List StoredSegment) : List UInt32 := segments.flatMap fun segment => segment.asns.items

/-- An AS number of a path attribute is written in place. -/
def StoredAttr.setAsn (segment place : Nat) (asn : UInt32) (attr : StoredAttr) : StoredAttr :=
  match attr.segments with
  | .held segments =>
    attr.withPath (.held (segments.modify segment fun held =>
      match held.asns with
      | .held asns => { held with asns := .held (asns.set place asn) }
      | .missing count => { held with asns := .missing count })) attr.is4b
  | .missing _ => attr

/-- The inner loop of `update_restore_as_path_sparse`, with the listed AS numbers that are left. -/
def fillAsns (index segment : Nat) : Nat → List UInt32 → List UInt32 → Edit (List UInt32)
  | _, [], left => pure left
  | place, asn :: rest, left =>
    if asn = asTrans then
      match left with
      | [] => throw .invalid
      | real :: left => do
          changeAt index (StoredAttr.setAsn segment place real)
          fillAsns index segment (place + 1) rest left
    else fillAsns index segment (place + 1) rest left

/-- The loop over the segments. -/
def fillPath (index : Nat) : Nat → List StoredSegment → List UInt32 → Edit Unit
  | _, [], _ => pure ()
  | segment, held :: rest, left => do
      let left ← fillAsns index segment 0 held.asns.items left
      fillPath index (segment + 1) rest left

/-- `update_restore_as_path_sparse`, which writes into the attribute at the place. -/
def restoreSparse (index : Nat) (asPath as4Path : StoredAttr) : Edit Unit := do
  let _ ← Edit.ofExcept (asPath.validateAsPathData false)
  let as4Count ← Edit.ofExcept (as4Path.validateAsPathData false)
  Edit.failIf ((storedAsns asPath.segments.items).count asTrans ≠ as4Count) .invalid
  fillPath index 0 asPath.segments.items (storedAsns as4Path.segments.items)
  changeAt index fun attr => attr.withPath attr.segments true

/-- The two ways in which `libbgp_update_restore_as_path` writes the path again. -/
def restoreTogether (index : Nat) (asPath as4Path : StoredAttr) (start as4Count : Nat) : Edit Unit :=
  let path := storedAsns asPath.segments.items
  if start ≠ 0 ∧ path.count asTrans = as4Count ∧
      suffixMatchesAs4 path (storedAsns as4Path.segments.items) start = false then restoreSparse index asPath as4Path
  else do
    let next ← rebuildFromAs4Suffix asPath as4Path start
    changeAt index fun _ => next

/-- `libbgp_update_restore_as_path` -/
def storedRestoreAsPath : Edit Unit := do
  let attrs := (← get).attrs
  match updateFindAttr attrs .asPath, updateFindAttr attrs .as4Path with
  | none, _ => pure ()
  | some (index, asPath), none => do
      let _ ← Edit.ofExcept (asPath.validateAsPathData false)
      changeAt index fun attr => attr.withPath attr.segments true
  | some (index, asPath), some (_, as4Path) => do
      let as4Count ← Edit.ofExcept (as4Path.validateAsPathData false)
      let count ← Edit.ofExcept (asPath.validateAsPathData false)
      Edit.failIf (count < as4Count) .invalid
      restoreTogether index asPath as4Path (count - as4Count) as4Count
      storedRemoveAttrType .as4Path

/-- `update_first_as4_shadow_index` -/
def firstShadowIndex : Nat → List StoredSegment → Except Fault Nat
  | position, [] => .ok position
  | position, segment :: rest =>
    if !segment.valid then .error .badLen
    else if segment.asns.items.any (65535 < ·) then .ok (position + segment.asns.items.findIdx (65535 < ·))
    else if sizeMax - segment.asns.count < position then .error .badLen
    else firstShadowIndex (position + segment.asns.count) rest

/-- The first loop of `update_clone_path_suffix_as_type`: the segments of the suffix are counted. -/
def countSuffix (start : Nat) : Nat → Nat → List StoredSegment → Except Fault Nat
  | _, total, [] => .ok total
  | position, total, segment :: rest =>
    if start < position + segment.asns.count then
      if position < start && segment.type == 1 then .error .invalid
      else countSuffix start (position + segment.asns.count) (total + 1) rest
    else countSuffix start (position + segment.asns.count) total rest

/-- The second loop: the segments are copied from the start on. -/
def copySuffix (start : Nat) : Nat → List StoredSegment → Edit (List StoredSegment)
  | _, [] => pure []
  | position, segment :: rest =>
    if position + segment.asns.count ≤ start then copySuffix start (position + segment.asns.count) rest
    else do
      let first ← copySegmentPrefixOf ⟨segment.type, .held (segment.asns.items.drop (start - position))⟩
        (segment.asns.count - (start - position))
      let more ← copySuffix start (position + segment.asns.count) rest
      pure (first :: more)

/-- `update_clone_path_suffix_as_type` for the shadow of a path. -/
def cloneSuffix (source : StoredAttr) (start : Nat) : Edit StoredAttr := do
  let count ← Edit.ofExcept (source.validateAsPathData false)
  Edit.failIf (count ≤ start) .invalid
  let total ← Edit.ofExcept (countSuffix start 0 0 source.segments.items)
  let shadow ← newStoredPath true
  if total = 0 then pure shadow
  else do
    Edit.failIf (sizeMax / segmentSize < total) .badLen
    Edit.ask
    let segments ← copySuffix start 0 source.segments.items
    pure (shadow.withPath (.held segments) true)

/-- AS numbers that need four bytes become AS_TRANS. -/
def StoredSegment.narrow (segment : StoredSegment) : StoredSegment :=
  match segment.asns with
  | .held asns => { segment with asns := .held (asns.map fun asn => if 65535 < asn then asTrans else asn) }
  | .missing count => { segment with asns := .missing count }

def StoredAttr.narrow (attr : StoredAttr) : StoredAttr :=
  match attr.segments with
  | .held segments => attr.withPath (.held (segments.map StoredSegment.narrow)) attr.is4b
  | .missing count => attr.withPath (.missing count) attr.is4b

/-- `libbgp_update_downgrade_as_path` -/
def storedDowngradeAsPath : Edit Unit := do
  let attrs := (← get).attrs
  match updateFindAttr attrs .asPath with
  | none => pure ()
  | some (_, asPath) =>
    if !asPath.is4b then pure ()
    else do
      let _ ← Edit.ofExcept (asPath.validateAsPathData false)
      let next ← clonePathAs false asPath false
      if (storedAsns asPath.segments.items).any (65535 < ·) then do
        let first ← Edit.ofExcept (firstShadowIndex 0 asPath.segments.items)
        let count ← Edit.ofExcept (asPath.validateAsPathData false)
        let shadow ← cloneSuffix asPath first
        Edit.failIf (count ≤ first) .invalid
        storedSetAttrPair next.narrow shadow
      else do
        storedSetAttr next.narrow
        storedRemoveAttrType .as4Path

/-- The fields of an aggregator. -/
def StoredAttr.aggregatorData (attr : StoredAttr) : UInt32 × RouterId × Bool :=
  match attr.data with
  | .aggregator asn routerId is4b | .as4Aggregator asn routerId is4b => (asn, routerId, is4b)
  | _ => (0, 0, false)

/-- An aggregator with other fields. -/
def StoredAttr.withAggregator (asn : UInt32) (routerId : RouterId) (is4b : Bool) (attr : StoredAttr) : StoredAttr :=
  { attr with data := .aggregator asn routerId is4b }

/-- `libbgp_update_restore_aggregator` -/
def storedRestoreAggregator : Edit Unit := do
  let attrs := (← get).attrs
  match updateFindAttr attrs .aggregator, updateFindAttr attrs .as4Aggregator with
  | none, none => pure ()
  | none, some (_, as4) => do
      let (asn, routerId, _) := as4.aggregatorData
      Edit.ask
      storedSetAttr ⟨0xc0, 7, .aggregator asn routerId true⟩
      storedRemoveAttrType .as4Aggregator
  | some (index, held), none =>
    let (asn, routerId, _) := held.aggregatorData
    changeAt index (StoredAttr.withAggregator asn routerId true)
  | some (index, _), some (_, as4) => do
      -- The width is written before the other attribute goes, while the place is still the same.
      let (asn, routerId, _) := as4.aggregatorData
      changeAt index (StoredAttr.withAggregator asn routerId true)
      storedRemoveAttrType .as4Aggregator

/-- The AS4_AGGREGATOR of `libbgp_update_downgrade_aggregator`. -/
def setShadowAggregator (asn : UInt32) (routerId : RouterId) (is4b : Bool) : Edit Unit :=
  if is4b || 65535 < asn then do
    Edit.ask
    storedSetAttr ⟨0xc0, 18, .as4Aggregator asn routerId true⟩
  else pure ()

/-- `libbgp_update_downgrade_aggregator` -/
def storedDowngradeAggregator : Edit Unit := do
  let attrs := (← get).attrs
  match updateFindAttr attrs .aggregator with
  | none => pure ()
  | some (index, held) => do
      let (asn, routerId, is4b) := held.aggregatorData
      setShadowAggregator asn routerId is4b
      changeAt index (StoredAttr.withAggregator (if 65535 < asn then asTrans else asn) routerId false)

/-- The path of `libbgp_update_prepend_asn` before the AS number, with its count. -/
def prependSource (asPath : Option (Nat × StoredAttr)) (wide : Bool) : Edit (Nat × StoredAttr) :=
  match asPath with
  | none => do
      let path ← newStoredPath false
      pure (0, path.withPath path.segments wide)
  | some (_, asPath) => do
      let original ← Edit.ofExcept (asPath.validateAsPathData false)
      let next ← clonePathAs false asPath wide
      pure (original, next)

/-- The real AS number is written into the first place of a path. -/
def StoredAttr.setFirst (asn : UInt32) (attr : StoredAttr) : StoredAttr :=
  match attr.segments.items with
  | segment :: _ => if segment.asns.count = 0 then attr else attr.setAsn 0 0 asn
  | [] => attr

/-- The AS4_PATH of `libbgp_update_prepend_asn`, for an AS number that needs four bytes. -/
def storedPrependShadow (as4Path : Option (Nat × StoredAttr)) (original : Nat) (next : StoredAttr) (asn : UInt32) :
    Edit StoredAttr := do
  let count ← Edit.ofExcept (next.validateAsPathData false)
  match as4Path with
  | none => do
      let shadow ← clonePathAs true next true
      pure (shadow.setFirst asn)
  | some (_, as4Path) => do
      let as4Count ← Edit.ofExcept (as4Path.validateAsPathData false)
      Edit.failIf (original < as4Count) .invalid
      let clone ← clonePathAs true next true
      let shadow ← rebuildFromAs4Suffix clone as4Path (count - as4Count)
      pure (shadow.setFirst asn)

/-- `libbgp_update_prepend_asn` -/
def storedPrependAsn (asn : UInt32) (wide : Bool) : Edit Unit := do
  let attrs := (← get).attrs
  let asPath := updateFindAttr attrs .asPath
  let as4Path := updateFindAttr attrs .as4Path
  Edit.failIf (wide && as4Path.isSome) .invalid
  Edit.failIf (asPath.any fun found => found.2.is4b != wide) .invalid
  let (original, path) ← prependSource asPath wide
  let next ← prependTo path (if wide || asn ≤ 65535 then asn else asTrans)
  if !wide && 65535 < asn then do
    let shadow ← storedPrependShadow as4Path original next asn
    storedSetAttrPair next shadow
  else storedSetAttr next

/-- The operations that change the AS numbers of a message. -/
inductive EditOp where
  | restoreAsPath
  | downgradeAsPath
  | restoreAggregator
  | downgradeAggregator
  | prependAsn (asn : UInt32) (wide : Bool)

def EditOp.edit : EditOp → Edit Unit
  | .restoreAsPath => storedRestoreAsPath
  | .downgradeAsPath => storedDowngradeAsPath
  | .restoreAggregator => storedRestoreAggregator
  | .downgradeAggregator => storedDowngradeAggregator
  | .prependAsn asn wide => storedPrependAsn asn wide

end Libbgp
