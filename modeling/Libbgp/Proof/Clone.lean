/-
Copies of messages: what was read from the wire is copied as it is.
-/

import Libbgp.Proof.AttrList
import Libbgp.Proof.RoundTrip
import Libbgp.Proof.UpdateCodec

namespace Libbgp

open Library List

section Codes

variable {type : PAttrType} {attrs : List (Option PAttr)} {attr : PAttr}

theorem typeCode_of_type (known : attr.type ≠ .unknown) : attr.typeCode = attr.type.code := by
  obtain ⟨flags, data⟩ := attr
  cases data with
  | unknown => exact absurd rfl known
  | _ => rfl

/-- With distinct codes there is at most one attribute of a recognised kind. -/
theorem countOf_of_codes (codes : ((attrs.filterMap id).map PAttr.typeCode).Nodup) (known : type ≠ .unknown) :
    countOf type attrs ≤ 1 := by
  have once := nodup_iff_count_le_one.mp codes type.code
  rw [count, countP_map] at once
  refine Nat.le_trans (countP_mono_left fun attr _ same => ?_) once
  have kind : attr.type = type := beq_iff_eq.mp same
  exact beq_iff_eq.mpr (kind ▸ typeCode_of_type (kind ▸ known))

end Codes

/-- A copy of the attribute by way of its bytes is the attribute. -/
structure CleanAttr (attr : PAttr) : Prop where
  legible : attr.Legible (parseAs4Context attr)
  normal : attr.normal = attr

section Copies

variable {wide : Bool} {attr copy : PAttr} {attrs copied result : List (Option PAttr)} {update after : UpdateMsg}
  {prefixes others : List (Prefix 32)} {bytes : Bytes} {size : Nat}

theorem PAttr.Legible.context (legible : attr.Legible wide) : attr.Legible (parseAs4Context attr) := by
  refine ⟨?_, legible.flags, legible.short⟩
  have data := legible.data
  obtain ⟨flags, _ | ⟨segments, is4b⟩ | _ | _ | _ | _ | ⟨asn, routerId, is4b⟩ | _ | _ | _ | _ | _ | _⟩ := attr
  case asPath | aggregator => exact ⟨rfl, data.1 ▸ data.2⟩
  all_goals exact data

theorem PAttr.Legible.write_eq (legible : attr.Legible wide) (written : pattrWrite attr size = .ok bytes) :
    bytes = attrBytes attr := by
  rcases Nat.lt_or_ge size (attrBytes attr).length with short | room
  · rw [attrBytes, length_append, ← length_wireHeader] at short
    rw [pattrWrite, legible.valueLen] at written
    cases (if_pos short).symm.trans written
  · exact Except.ok.inj (written.symm.trans (legible.write room))

/-- A legible attribute is copied in its normal form. -/
theorem clonePattr_yields (legible : attr.Legible (parseAs4Context attr))
    (yields : Work.Yields (clonePattr (some attr)) copy) : copy = attr.normal := by
  obtain ⟨bytes, written, started⟩ := yields.bind
  obtain rfl := legible.write_eq (Work.yields_ofExcept written)
  obtain ⟨⟨⟩, -, started⟩ := started.bind
  obtain ⟨read, parsed, done⟩ := started.bind
  have gives := @pattrParseAs4_gives (parseAs4Context attr) [] attr legible
  rw [append_nil] at gives
  obtain rfl := parsed.unique gives
  exact (Work.yields_pure done).symm

/-- Copied attributes that are clean are the attributes. -/
theorem cloneAttrs_yields (clean : ∀ attr, some attr ∈ attrs → CleanAttr attr)
    (yields : Work.Yields (cloneAttrs copied attrs) result) : result = copied ++ attrs := by
  induction attrs generalizing copied with
  | nil => rw [append_nil, ← Work.yields_pure yields]
  | cons slot rest ih =>
    obtain ⟨copy, copying, started⟩ := yields.bind
    rcases slot with _ | attr
    · exact absurd copying Work.not_yields_throw
    · have first := clean attr (mem_cons_self ..)
      obtain rfl := (clonePattr_yields first.legible copying).trans first.normal
      obtain ⟨-, started⟩ := started.check
      obtain ⟨⟨⟩, -, started⟩ := started.bind
      rw [ih (fun other member => clean other (mem_cons_of_mem _ member)) started, append_assoc]
      rfl

/-- Copied prefixes are the prefixes. -/
theorem clonePrefixes_yields (yields : Work.Yields (clonePrefixes prefixes) others) : others = prefixes := by
  unfold clonePrefixes at yields
  induction prefixes generalizing others with
  | nil => exact (Work.yields_pure yields).symm
  | cons pfx rest ih =>
    rw [mapM_cons] at yields
    obtain ⟨copy, copying, started⟩ := yields.bind
    obtain ⟨more, behind, done⟩ := started.bind
    obtain ⟨-, copying⟩ := copying.check
    obtain ⟨⟨⟩, -, copied⟩ := copying.bind
    rw [← Work.yields_pure done, ← Work.yields_pure copied, ih behind]

/-- `fsm_clone_update` changes nothing that was read from the wire. -/
theorem cloneUpdateMsg_yields (clean : ∀ attr, some attr ∈ update.attrs → CleanAttr attr)
    (yields : Work.Yields (cloneUpdateMsg update) after) : after = update := by
  obtain ⟨withdrawn, first, started⟩ := yields.bind
  obtain ⟨attrs, second, started⟩ := started.bind
  obtain ⟨nlri, third, done⟩ := started.bind
  rw [← Work.yields_pure done, clonePrefixes_yields first, cloneAttrs_yields clean second, clonePrefixes_yields third]
  rfl

/-- What an operation of the message code returns is the outcome of its work. -/
theorem MessageOp.run_ofWork {work : UpdateMsg → Work UpdateMsg} {alloc rest : Allocator}
    (done : (MessageOp.ofWork work).run update alloc = (.ok after, rest)) : (work update).outcome = .ok after := by
  rw [MessageOp.run] at done
  split at done
  case h_1 =>
    have result : (work update).outcome.mapError Subtype.val = .ok after := congrArg Prod.fst done
    cases outcome : (work update).outcome with
    | error fault =>
      rw [outcome] at result
      cases result
    | ok value =>
      rw [outcome] at result
      exact congrArg Except.ok (Except.ok.inj result)
  case h_2 => cases congrArg Prod.fst done

end Copies

/-- The route was learned from an UPDATE that a session read and applied, and is stored. -/
def LearnedFrom (wide : Bool) (received : UpdateMsg) (af : Af) (route : Route af.family.width) : Prop :=
  ∃ (bytes : Bytes) (session : Fsm) (announced : Announced af.family.width) (counter : UInt64),
    (updateParseAs4 wide bytes).outcome = .ok received ∧ validateUpdate received = none ∧
      announced ∈ announcedPrefixes received af ∧
      route = RibImpl.cloneOf counter (session.announcedRoute received af announced)

/-- A route whose message is copied as it is. -/
structure CleanRoute (af : Af) (route : Route af.family.width) : Prop where
  exportable : Exportable af route
  attrs : ∀ attr, some attr ∈ route.attrs → CleanAttr attr
  pfx : route.pfx.cleared = route.pfx

section Learning

variable {wide : Bool} {received : UpdateMsg} {af : Af} {route : Route af.family.width} {attr : PAttr}
  {nextHop : BitVec 32}

theorem fixed_of_map {A : Type} {change : A → A} {list : List A} (same : list.map change = list) (item : A)
    (member : item ∈ list) : change item = item :=
  map_inj_left.mp (same.trans (map_id list).symm) item member

theorem UpdateRead.clean {bytes : Bytes} (read : UpdateRead wide bytes received) {attr : PAttr}
    (stored : some attr ∈ received.attrs) : CleanAttr attr :=
  ⟨(read.legible.attrs attr (mem_filterMap_id.mpr stored)).context,
    Option.some.inj (fixed_of_map (congrArg UpdateMsg.attrs read.normal) _ stored)⟩

/-- The message of a learned route is copied as it is. -/
theorem LearnedFrom.clean (learned : LearnedFrom wide received af route) : CleanRoute af route := by
  obtain ⟨bytes, session, announced, counter, read, valid, member, rfl⟩ := learned
  have read := updateParseAs4_yields (.ofOutcome read)
  refine ⟨((validateUpdate_accepts valid).exportable session member).clone counter, fun attr stored => ?_, ?_⟩
  · have inside : some attr ∈ received.attrs := by
      cases af with
      | ipv4 => exact stored
      | ipv6 => exact (mem_filter.mp stored).1
    exact read.clean inside
  · cases af with
    | ipv4 =>
      obtain ⟨pfx, inside, rfl⟩ := mem_map.mp member
      exact fixed_of_map (congrArg UpdateMsg.nlri read.normal) pfx inside
    | ipv6 =>
      obtain ⟨reach, inside, announces⟩ := mem_flatMap.mp member
      have cleared := congrArg PAttr.data (read.clean (mem_filterMap_id.mp inside)).normal
      obtain ⟨flags, data⟩ := reach
      cases data with
      | mpReachIpv6 nexthop linkLocal nexthopLen nlri =>
        obtain ⟨pfx, listed, rfl⟩ := mem_map.mp announces
        have same : nlri.map Prefix.cleared = nlri := (PAttrData.mpReachIpv6.inj cleared).2.2.2
        exact fixed_of_map same pfx listed
      | _ => cases announces

/-- The attribute in place, with another next hop. -/
def withNextHop (nextHop : BitVec 32) (attr : PAttr) : PAttr := { attr with data := .nextHop nextHop }

theorem type_withNextHop (attr : PAttr) (_ : attr.type = .nextHop) :
    (withNextHop nextHop attr).type = .nextHop := rfl

theorem replaceNextHop_eq (nextHop : BitVec 32) (attrs : List (Option PAttr)) :
    UpdateMsg.replaceNextHop nextHop attrs = changeFirst .nextHop (withNextHop nextHop) attrs := by
  induction attrs with
  | nil => rfl
  | cons slot rest ih =>
    rcases slot with _ | attr
    · exact congrArg (none :: ·) ih
    · rw [UpdateMsg.replaceNextHop, changeFirst, ih]
      rfl

theorem mem_replaced {attrs : List (Option PAttr)} (member : some attr ∈ UpdateMsg.replaceNextHop nextHop attrs) :
    some attr ∈ attrs ∨ ∃ old, some old ∈ attrs ∧ old.type = .nextHop ∧ attr = withNextHop nextHop old := by
  rw [replaceNextHop_eq] at member
  exact mem_changeFirst member

theorem CleanAttr.withNextHop (clean : CleanAttr attr) (kind : attr.type = .nextHop) (nextHop : BitVec 32) :
    CleanAttr (withNextHop nextHop attr) := by
  have code : attr.typeCode = 3 := PAttr.typeCode_nextHop.mpr kind
  have length : (writeValue (PAttrData.nextHop nextHop)).length = 4 := length_addrWrite (by decide) nextHop
  refine ⟨⟨trivial, ?_, ?_⟩, ?_⟩
  · have flags := clean.legible.flags
    rw [code] at flags
    exact flags
  · show (writeValue (PAttrData.nextHop nextHop)).length ≤ 65535
    omega
  · have flags : (Libbgp.withNextHop nextHop attr).wireFlags = attr.flags := if_neg (by
      show ¬ 255 < (writeValue (PAttrData.nextHop nextHop)).length
      omega)
    rw [PAttr.normal, flags]
    rfl

/-- The attribute that announces a prefix of a route. -/
def reachAttr (nextHop linkLocal : BitVec 128) (pfx : Prefix 128) : PAttr :=
  ⟨0x80, .mpReachIpv6 nextHop linkLocal (if linkLocal = 0 then 16 else 32) [pfx]⟩

theorem cleanAttr_reach (nextHop linkLocal : BitVec 128) {pfx : Prefix 128} (fits : pfx.len ≤ 128)
    (cleared : pfx.cleared = pfx) : CleanAttr (reachAttr nextHop linkLocal pfx) := by
  have data : (reachAttr nextHop linkLocal pfx).data.Legible false := by
    refine ⟨?_, forall_mem_singleton.mpr fits⟩
    split
    case isTrue none => exact .inl ⟨rfl, none⟩
    case isFalse => exact .inr rfl
  have short : (writeValue (reachAttr nextHop linkLocal pfx).data).length ≤ 255 := by
    have octets := prefixOctets_le (by decide) fits
    have length := length_prefixWrite (by decide) fits
    simp only [reachAttr, writeValue, length_append, length_take, flatMap_singleton, length_cons,
      length_nil, length]
    split <;> omega
  have valid : pattrKnownFlagsValid (pattrTypeFromCode 14) 0x80 = true := by decide
  refine ⟨⟨data, valid, Nat.le_trans short (by decide)⟩, ?_⟩
  have flags : (reachAttr nextHop linkLocal pfx).wireFlags = 0x80 := if_neg (Nat.not_lt.mpr short)
  rw [PAttr.normal, flags]
  show PAttr.mk 0x80 (.mpReachIpv6 nextHop linkLocal _ [pfx.cleared]) = _
  rw [cleared]
  rfl

/-- The message of a clean route is copied as it is. -/
theorem CleanRoute.message (clean : CleanRoute af route) (stored : some attr ∈ (exportedMessage af route).attrs) :
    CleanAttr attr := by
  cases af with
  | ipv4 =>
    rcases mem_replaced stored with kept | ⟨old, kept, kind, rfl⟩
    · exact clean.attrs attr (some_mem_keptAttrs.mp kept).1
    · exact (clean.attrs old (some_mem_keptAttrs.mp kept).1).withNextHop kind _
  | ipv6 =>
    rcases mem_append.mp stored with kept | added
    · exact clean.attrs attr (some_mem_keptAttrs.mp kept).1
    · obtain rfl := Option.some.inj (mem_singleton.mp added)
      exact cleanAttr_reach _ _ clean.exportable.fits clean.pfx

end Learning

end Libbgp
