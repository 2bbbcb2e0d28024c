/-
Forwarded routes: what a peer reads from the message that announces a stored route to it.
-/

import Libbgp.Proof.ForwardPath
import Libbgp.Proof.Negotiation

namespace Libbgp

open Library List

section Exported

variable {af : Af} {route : Route af.family.width} {type : PAttrType} {attrs : List (Option PAttr)} {attr : PAttr}

/-- An exported message has each attribute once. -/
theorem Exportable.exportedCodes (exportable : Exportable af route) :
    (((exportedMessage af route).attrs.filterMap id).map PAttr.typeCode).Nodup := by
  cases af with
  | ipv4 =>
    have same := @typeCodes_replace (keptAttrs .ipv4 route.attrs) route.nextHop
    exact same ▸ keptCodes exportable.codes
  | ipv6 =>
    have kept : (((keptAttrs .ipv6 route.attrs).filterMap id).map PAttr.typeCode).Nodup := keptCodes exportable.codes
    show (((keptAttrs .ipv6 route.attrs ++ [_]).filterMap id).map PAttr.typeCode).Nodup
    rw [filterMap_append, map_append]
    refine kept.append (nodup_singleton _) fun code inside added => ?_
    obtain ⟨attr, member, rfl⟩ := mem_map.mp inside
    exact exportable.reach rfl attr (some_mem_keptAttrs.mp (mem_filterMap_id.mp member)).1 (mem_singleton.mp added)

/-- Attributes of other kinds are dropped. -/
theorem firstOf_filter {keep : PAttr → Bool} (kept : ∀ attr : PAttr, attr.type = type → keep attr = true) :
    firstOf type (attrs.filter fun slot => slot.any keep) = firstOf type attrs := by
  rw [firstOf, filterMap_filter_any, find?_filter]
  congr 1
  funext attr
  by_cases kind : attr.type = type
  · simp [kept attr kind, kind]
  · simp [kind]

/-- The kinds of attributes that a route gives to its message unchanged. -/
theorem firstOf_exported (exported : ∀ attr : PAttr, attr.type = type → exportsAttr af attr = true)
    (hop : type ≠ .nextHop)
    (reach : type ≠ .mpReachIpv6) : firstOf type (exportedMessage af route).attrs = firstOf type route.attrs := by
  have kept : firstOf type (keptAttrs af route.attrs) = firstOf type route.attrs := firstOf_filter exported
  cases af with
  | ipv4 =>
    have same := replaceNextHop_eq route.nextHop (keptAttrs .ipv4 route.attrs)
    exact (congrArg (firstOf type) same).trans ((firstOf_changeFirst_other type_withNextHop hop).trans kept)
  | ipv6 =>
    show firstOf type (keptAttrs .ipv6 route.attrs ++ [_]) = _
    rw [firstOf_append, kept, firstOf_cons, if_neg fun same => reach same.symm]
    exact Option.or_none

theorem exportsAttr_path (af : Af) (kind : attr.type = .asPath ∨ attr.type = .as4Path) :
    exportsAttr af attr = true := by
  cases af with
  | ipv4 => rcases kind with kind | kind <;> simp [exportsAttr, ipv4RouteAttr, kind]
  | ipv6 => rcases kind with kind | kind <;> simp [exportsAttr, ipv6RouteAttr, kind]

theorem exportedMessage_announces (af : Af) (route : Route af.family.width) :
    (exportedMessage af route).hasAdvertisements = true := by
  cases af with
  | ipv4 => rfl
  | ipv6 => simp [UpdateMsg.hasAdvertisements, mpReachHasNlri, exportedMessage, filterMap_append]

theorem kept_kinds (stored : some attr ∈ keptAttrs af attrs) :
    attr.type ≠ .mpReachIpv6 ∧ attr.type ≠ .mpUnreachIpv6 := by
  have exported := (some_mem_keptAttrs.mp stored).2
  cases af with
  | ipv4 => simpa [exportsAttr, ipv4RouteAttr] using exported
  | ipv6 =>
    obtain ⟨exported, unreach⟩ := Bool.and_eq_true_iff.mp exported
    exact ⟨bne_iff_ne.mp (Bool.and_eq_true_iff.mp exported).2, bne_iff_ne.mp unreach⟩

theorem exportedMessage_kinds (stored : some attr ∈ (exportedMessage af route).attrs) : attr.type ≠ .mpUnreachIpv6 := by
  cases af with
  | ipv4 =>
    rcases mem_replaced stored with kept | ⟨old, kept, kind, rfl⟩
    · exact (kept_kinds kept).2
    · exact nofun
  | ipv6 =>
    rcases mem_append.mp stored with kept | added
    · exact (kept_kinds kept).2
    · obtain rfl := Option.some.inj (mem_singleton.mp added)
      exact nofun

theorem firstOf_kept_reach : firstOf .mpReachIpv6 (keptAttrs af attrs) = none := by
  refine find?_eq_none.mpr fun attr member kind => ?_
  exact (kept_kinds (mem_filterMap_id.mp member)).1 (beq_iff_eq.mp kind)

theorem firstOf_exported4 {route : Route Af.ipv4.family.width} :
    firstOf .mpReachIpv6 (exportedMessage .ipv4 route).attrs = none := by
  have same := replaceNextHop_eq route.nextHop (keptAttrs .ipv4 route.attrs)
  exact (congrArg (firstOf _) same).trans
    ((firstOf_changeFirst_other type_withNextHop (by decide)).trans firstOf_kept_reach)

theorem firstOf_exported6 {route : Route Af.ipv6.family.width} :
    firstOf .mpReachIpv6 (exportedMessage .ipv6 route).attrs =
    some (reachAttr route.nextHop route.nextHopLinklocal route.pfx) := by
  show firstOf .mpReachIpv6 (keptAttrs .ipv6 route.attrs ++ [_]) = _
  rw [firstOf_append, firstOf_kept_reach]
  rfl

end Exported

section Preparing

variable {fsm : Fsm} {message prepared : UpdateMsg} {alloc rest : Allocator} {attr : PAttr} {update after : UpdateMsg}

theorem run_either {wide : Bool} {first second : UpdateMsg → Work UpdateMsg}
    (done : (if wide then MessageOp.ofWork first else MessageOp.ofWork second).run update alloc = (.ok after, rest)) :
    ((if wide then first else second) update).outcome = .ok after := by
  cases wide with
  | true | false => exact MessageOp.run_ofWork done

/-- The steps of `fsm_send_prepared_update` for a message that announces something. -/
theorem prepareAdvertisements_ok (done : fsm.prepareAdvertisements libbgpCode message alloc = (.ok prepared, rest)) :
    ∃ forwarded routed4 routed6 converted aggregated left,
      message.prepareForwardAttrs fsm.isIbgp = .ok forwarded ∧
        fsm.alterNexthop4 forwarded alloc = (.ok, routed4, left) ∧
        fsm.alterNexthop6 routed4 = .ok routed6 ∧ (convertPath fsm.peer4byteAsn routed6).outcome = .ok converted ∧
        (convertAggregator fsm.peer4byteAsn converted).outcome = .ok aggregated ∧
        (fsm.prepends aggregated).outcome = .ok prepared := by
  rw [Fsm.prepareAdvertisements] at done
  split at done
  case h_1 => cases congrArg Prod.fst done
  case h_2 forwarded forwards =>
    split at done
    case h_2 => cases congrArg Prod.fst done
    case h_1 routed4 left routes4 =>
      split at done
      case h_1 => cases congrArg Prod.fst done
      case h_2 routed6 routes6 =>
        split at done
        case h_1 => cases congrArg Prod.fst done
        case h_2 converted _ converts =>
          split at done
          case h_1 => cases congrArg Prod.fst done
          case h_2 aggregated _ aggregates =>
            refine ⟨forwarded, routed4, routed6, converted, aggregated, left, forwards, routes4, routes6,
              run_either converts, run_either aggregates, ?_⟩
            rw [Fsm.prepends]
            split at done
            case isTrue internal =>
              cases done
              rw [if_pos internal]
              rfl
            case isFalse external =>
              rw [if_neg external]
              exact MessageOp.run_ofWork done

/-- A message whose attributes may go to a peer, with a next hop for it. -/
structure Routed (fsm : Fsm) (message after : UpdateMsg) : Prop where
  withdrawn : after.withdrawn = message.withdrawn
  nlri : after.nlri = message.nlri
  passes : ∀ attr, some attr ∈ after.attrs → Passable fsm.isIbgp attr
  counts : ∀ type, countOf type message.attrs ≤ 1 → countOf type after.attrs ≤ 1
  reach : firstOf .mpReachIpv6 after.attrs = (firstOf .mpReachIpv6 message.attrs).map (alteredReach fsm)
  nextHop : message.nlri ≠ [] → fsm.keepsNexthop = false → NearNextHop4 fsm after.attrs

/-- The later steps leave the next hops as they are. -/
theorem Routed.rewrites {kinds : List PAttrType} (routed : Routed fsm message update)
    (rewrites : Rewrites fsm.isIbgp kinds update after)
    (apart : PAttrType.mpReachIpv6 ∉ kinds ∧ PAttrType.nextHop ∉ kinds) : Routed fsm message after := by
  refine ⟨rewrites.withdrawn.trans routed.withdrawn, rewrites.nlri.trans routed.nlri, rewrites.attrs.all routed.passes,
    fun type few => rewrites.attrs.counts type (routed.counts type few), ?_, fun announces alters => ?_⟩
  · rw [rewrites.attrs.others _ apart.1, routed.reach]
  · rw [NearNextHop4, rewrites.attrs.others _ apart.2]
    exact routed.nextHop announces alters

theorem path_transitive : ∀ flags : UInt8, pattrKnownFlagsValid .asPath flags = true → flags &&& flagTransitive ≠ 0 :=
  forall_byte (by decide +kernel)

theorem shadow_transitive :
    ∀ flags : UInt8, pattrKnownFlagsValid .as4Path flags = true → flags &&& flagTransitive ≠ 0 :=
  forall_byte (by decide +kernel)

/-- The attributes of the AS path and the IPv6 attribute are always passed on. -/
theorem forwarded_kinds {isIbgp : Bool} (clean : CleanAttr attr)
    (kind : attr.type = .asPath ∨ attr.type = .as4Path ∨ attr.type = .mpReachIpv6) : attr.forwarded isIbgp = true := by
  have valid := clean.legible.flagsValid
  rw [PAttr.forwarded]
  rcases kind with kind | kind | kind
  · rw [kind] at valid
    simp [kind, path_transitive attr.flags valid]
  · rw [kind] at valid
    simp [kind, shadow_transitive attr.flags valid]
  · simp [kind]

/-- The first steps: the attributes that are passed on, and the next hops. -/
theorem routed_steps {forwarded routed4 routed6 : UpdateMsg}
    (forwards : message.prepareForwardAttrs fsm.isIbgp = .ok forwarded)
    (routes4 : fsm.alterNexthop4 forwarded alloc = (.ok, routed4, rest))
    (routes6 : fsm.alterNexthop6 routed4 = .ok routed6) (clean : ∀ attr, some attr ∈ message.attrs → CleanAttr attr)
    (kinds : ∀ attr, some attr ∈ message.attrs → attr.type ≠ .mpUnreachIpv6) :
    Routed fsm message routed6 ∧ firstOf .asPath routed6.attrs = firstOf .asPath message.attrs ∧
      firstOf .as4Path routed6.attrs = firstOf .as4Path message.attrs := by
  have passes := prepareForwardAttrs_members forwards clean kinds
  have kept (type : PAttrType) (known : type ≠ .unknown)
    (kind : type = .asPath ∨ type = .as4Path ∨ type = .mpReachIpv6) :
      firstOf type forwarded.attrs = firstOf type message.attrs :=
    prepareForwardAttrs_firstOf forwards known fun attr stored same => forwarded_kinds (clean attr stored) (same ▸ kind)
  have counts (type : PAttrType) (few : countOf type message.attrs ≤ 1) : countOf type forwarded.attrs ≤ 1 :=
    prepareForwardAttrs_counts forwards few
  obtain ⟨first, near⟩ := alterNexthop4_rewrites routes4 passes
  have second := alterNexthop6_rewrites routes6 (first.passes passes)
  have routed (type : PAttrType) (hop : type ∉ [PAttrType.nextHop]) (reach : type ∉ [PAttrType.mpReachIpv6]) :
      firstOf type routed6.attrs = firstOf type forwarded.attrs :=
    (second.attrs.others type reach).trans (first.attrs.others type hop)
  have same : forwarded.withdrawn = message.withdrawn ∧ forwarded.nlri = message.nlri := by
    rw [prepareForwardAttrs_eq forwards]
    exact ⟨rfl, rfl⟩
  refine ⟨⟨?_, ?_, second.passes (first.passes passes), fun type few => ?_, ?_, fun announces alters => ?_⟩, ?_, ?_⟩
  · rw [second.withdrawn, first.withdrawn, same.1]
  · rw [second.nlri, first.nlri, same.2]
  · exact second.attrs.counts type (first.attrs.counts type (counts type few))
  · rw [alterNexthop6_eq routes6, firstOf_map type_alteredReach, first.attrs.others _ (by decide)]
    exact congrArg _ (kept _ nofun (.inr (.inr rfl)))
  · rw [NearNextHop4, second.attrs.others _ (by decide)]
    exact near (same.2 ▸ announces) alters
  · exact (routed _ (by decide) (by decide)).trans (kept _ nofun (.inl rfl))
  · exact (routed _ (by decide) (by decide)).trans (kept _ nofun (.inr (.inl rfl)))

/-- The steps together. -/
theorem prepareAdvertisements_routed (done : fsm.prepareAdvertisements libbgpCode message alloc = (.ok prepared, rest))
    (clean : ∀ attr, some attr ∈ message.attrs → CleanAttr attr)
    (kinds : ∀ attr, some attr ∈ message.attrs → attr.type ≠ .mpUnreachIpv6)
    (single : countOf .as4Path message.attrs ≤ 1) (found : firstOf .asPath message.attrs = some attr)
    (narrow : fsm.peer4byteAsn = false → parseAs4Context attr = true ∧ firstOf .as4Path message.attrs = none) :
    Routed fsm message prepared ∧
      (∀ attr, firstOf .aggregator prepared.attrs = some attr → parseAs4Context attr = fsm.peer4byteAsn) ∧
      (fsm.peer4byteAsn = true → firstOf .as4Path prepared.attrs = none) ∧
      ∃ path held more, Carried (parseAs4Context attr) message.attrs attr path ∧
        Carried fsm.peer4byteAsn prepared.attrs held more ∧ hops more = fsm.ownHops ++ hops path := by
  obtain ⟨forwarded, routed4, routed6, converted, aggregated, left, forwards, routes4, routes6, converts,
      aggregates, prepends⟩ :=
    prepareAdvertisements_ok done
  obtain ⟨routed, path, shadow⟩ := routed_steps forwards routes4 routes6 clean kinds
  obtain ⟨first, alone, base, held, segments, carried, converted, kept, safe⟩ := convertPath_rewrites converts
    (path.trans found) (routed.counts _ single) (shadow ▸ narrow) routed.passes
  have routed := routed.rewrites first (by decide)
  obtain ⟨second, width⟩ := convertAggregator_rewrites aggregates routed.passes
  have routed := routed.rewrites second (by decide)
  have listed := second.attrs.others .as4Path (by decide)
  obtain ⟨third, last, longer, more, carries, same⟩ :=
    prepends_rewrites prepends (converted.rewrites second (by decide))
    (listed ▸ alone) (listed ▸ safe) routed.passes
  refine ⟨routed.rewrites third (by decide), ?_, last, base, longer, more,
    carried.congr path.symm shadow.symm, carries, ?_⟩
  · rw [third.attrs.others .aggregator (by decide)]
    exact width
  · rw [same, kept]

end Preparing

/-- The export of a stored route to a session: its initial advertisement, or the answer to the event that another
session publishes for it. -/
inductive ExportOf (fsm : Fsm) (af : Af) (route : Route af.family.width) (prepared : UpdateMsg) : Prop where
  | advertised {alloc rest : Allocator} (done : fsm.advertisedMessage libbgpCode af route alloc = (.ok prepared, rest))
  | event {source : RouterId} {event : UpdateMsg} {alloc left spare rest : Allocator}
      (built : updateFromRoute af route alloc = (.ok, event, left))
      (done : fsm.routeAddedMessage libbgpCode af source route.pfx event spare = (.ok prepared, rest))

section Exporting

variable {fsm : Fsm} {af : Af} {route : Route af.family.width} {message prepared : UpdateMsg} {alloc rest : Allocator}
  {wide : Bool}

theorem Exportable.built (exportable : Exportable af route)
    (built : updateFromRoute af route alloc = (.ok, message, rest)) : message = exportedMessage af route := by
  rcases updateFromRoute_built af route alloc with ⟨left, same, -⟩ | ⟨partly, left, failed, -⟩
  · rw [same, exportable.updateFromRoute_eq] at built
    exact (congrArg (fun result => result.2.1) built).symm
  · cases (congrArg Prod.fst failed).symm.trans (congrArg Prod.fst built)

/-- The exported message gives the stored route back. -/
theorem Exportable.returned (exportable : Exportable af route) {source : RouterId} {back : Route af.family.width}
    (done : fsm.eventRoute af source route.pfx (exportedMessage af route) alloc = (.ok back, rest)) :
      Returned route back := by
  obtain ⟨announced, found, length, returned⟩ := exportable.announcedFor
  obtain ⟨left, made, -⟩ :=
    makeRoute_readBack length source (exportedMessage af route) fsm.params.routeWeight fsm.isIbgp
    Allocator.generous_nil
  have done : makeRoute af source (exportedMessage af route) announced fsm.params.routeWeight fsm.isIbgp alloc =
      (.ok back, rest) := by
    rw [Fsm.eventRoute, found] at done
    exact done
  rcases makeRoute_steady af source (exportedMessage af route) alloc announced fsm.params.routeWeight fsm.isIbgp with
    ⟨spent, same, -⟩ | ⟨spent, failed, -⟩
  · rw [same, made] at done
    obtain rfl := Except.ok.inj (congrArg Prod.fst done)
    exact returned source fsm.params.routeWeight fsm.isIbgp
  · cases (congrArg Prod.fst failed).symm.trans (congrArg Prod.fst done)

/-- However it comes about, the message is prepared from the one for the stored route. -/
theorem ExportOf.prepares (exported : ExportOf fsm af route prepared) (clean : CleanRoute af route) :
    ∃ alloc rest, fsm.prepareAdvertisements libbgpCode (exportedMessage af route) alloc = (.ok prepared, rest) := by
  have prepares {message : UpdateMsg} {alloc rest : Allocator} (same : message = exportedMessage af route)
      (done : fsm.prepareUpdate libbgpCode message alloc = (.ok prepared, rest)) :
      ∃ alloc rest, fsm.prepareAdvertisements libbgpCode (exportedMessage af route) alloc = (.ok prepared, rest) := by
    subst same
    rw [Fsm.prepareUpdate] at done
    split at done
    case h_1 => cases congrArg Prod.fst done
    case h_2 copy left copied =>
      obtain rfl := cloneUpdateMsg_yields (fun _ stored => clean.message stored)
        (.ofOutcome (MessageOp.run_ofWork copied))
      rw [if_pos (exportedMessage_announces af route)] at done
      exact ⟨left, rest, done⟩
  cases exported with
  | advertised done =>
    rw [Fsm.advertisedMessage] at done
    split at done
    case h_1 message left built => exact prepares (clean.exportable.built built) done
    case h_2 => cases congrArg Prod.fst done
  | event built done =>
    obtain rfl := clean.exportable.built built
    rw [Fsm.routeAddedMessage] at done
    split at done
    case h_1 => cases congrArg Prod.fst done
    case h_2 back left returned =>
      have returned := clean.exportable.returned returned
      split at done
      case h_1 message left built =>
        have same := (returned.exportable clean.exportable).built built
        exact prepares (same.trans (returned.message clean.exportable.present)) done
      case h_2 => cases congrArg Prod.fst done

/-- The packet of an UPDATE is read as that UPDATE. -/
theorem updatePacketWrite_parses {packet : Bytes} (width : ∀ attr, some attr ∈ message.attrs → attr.data.OfWidth wide)
    (faithful : ∀ attr, some attr ∈ message.attrs → attr.data.Faithful)
    (written : updatePacketWrite message = .ok packet) :
    (packetParseAs4 wide packet).outcome = .ok (.update message.normal, packet.length) := by
  obtain ⟨body, encoded, framed⟩ := Work.exists_of_bind written
  obtain ⟨legible, rfl, fits⟩ := updateWrite_legible width faithful encoded
  obtain rfl : frame 2 (updateBytes message) = packet := Except.ok.inj framed
  have short : bgpHeaderLen + (updateBytes message).length ≤ bgpMaxPacketLen := by
    rw [bgpHeaderLen, bgpMaxPacketLen] at *
    omega
  rw [packetParseAs4_frame short, length_frame]
  have body : Work.Gives (packetParseBody wide 2 (updateBytes message)) (.update message.normal) :=
    legible.parse.bind (Work.gives_pure _)
  have whole : Work.Gives (packetParseBody wide 2 (updateBytes message) >>= fun packet =>
      pure (packet, bgpHeaderLen + (updateBytes message).length))
        (.update message.normal, bgpHeaderLen + (updateBytes message).length) :=
    body.bind (Work.gives_pure _)
  exact whole.outcome

end Exporting

/-- The configured next hop of a family. -/
def FsmParams.defaultNexthop (params : FsmParams) : (af : Af) → BitVec af.family.width
  | .ipv4 => params.defaultNexthop4
  | .ipv6 => params.defaultNexthop6

/-- A next hop that goes to a peer: the configured one, or one of the peering LAN. -/
def NearNextHop (fsm : Fsm) (af : Af) (nextHop : BitVec af.family.width) : Prop :=
  nextHop = fsm.params.defaultNexthop af ∨ addrMatches af.family (fsm.params.peeringLan af) nextHop = true

/-- A message announces one prefix of a family and nothing else, with a next hop for the peer. -/
structure Announces (fsm : Fsm) (af : Af) (pfx : Prefix af.family.width) (msg : UpdateMsg) : Prop where
  prefixes : (announcedPrefixes msg af).map Announced.pfx = [pfx]
  noOther : ∀ other, other ≠ af → announcedPrefixes msg other = []
  nextHop : fsm.keepsNexthop = false → ∀ announced ∈ announcedPrefixes msg af, NearNextHop fsm af announced.nextHop

/-- The AS path that is restored from a message. -/
def RestoresTo (update : UpdateMsg) (path : List Hop) : Prop :=
  ∃ restored, (updateRestoreAsPath update).outcome = .ok restored ∧ hops restored.path = path

/-- What a peer reads about a route that is passed on to it. -/
structure Forwarded (fsm : Fsm) (af : Af) (route : Route af.family.width) (msg : UpdateMsg) : Prop where
  announces : Announces fsm af route.pfx msg
  withdraws : ∀ family, withdrawnPrefixes msg family = []
  path : ∃ own, RestoresTo ⟨[], route.attrs, []⟩ own ∧ RestoresTo msg (fsm.ownHops ++ own)
  preference : fsm.isIbgp = false → msg.findAttr .localPref = none
  optional : ∀ attr, some attr ∈ msg.attrs → attr.flags &&& flagOptional ≠ 0 → attr.flags &&& flagTransitive = 0 →
    attr.type = .mpReachIpv6
  marked : fsm.isIbgp = false → ∀ attr, some attr ∈ msg.attrs → attr.type = .unknown →
    attr.flags &&& flagTransitive ≠ 0 →
    attr.flags &&& flagPartial ≠ 0

section Reading

variable {fsm : Fsm} {af : Af} {route : Route af.family.width} {message prepared : UpdateMsg} {wide : Bool}
  {attr held : PAttr}
  {attrs : List (Option PAttr)} {path : List AsPathSegment} {packet : Bytes} {received : UpdateMsg}

theorem extended_flags : ∀ flags : UInt8, (flags ||| 0x10) &&& flagOptional = flags &&& flagOptional ∧
    (flags ||| 0x10) &&& flagTransitive = flags &&& flagTransitive ∧
    (flags ||| 0x10) &&& flagPartial = flags &&& flagPartial := forall_byte (by decide +kernel)

/-- The flags of a written attribute differ only in the one for long values. -/
theorem wireFlags_bits (attr : PAttr) : attr.wireFlags &&& flagOptional = attr.flags &&& flagOptional ∧
    attr.wireFlags &&& flagTransitive = attr.flags &&& flagTransitive ∧
    attr.wireFlags &&& flagPartial = attr.flags &&& flagPartial := by
  rw [PAttr.wireFlags]
  split
  · exact extended_flags attr.flags
  · exact ⟨rfl, rfl, rfl⟩

theorem mem_normal (stored : some attr ∈ message.normal.attrs) :
    ∃ old, some old ∈ message.attrs ∧ old.normal = attr := by
  obtain ⟨slot, inside, same⟩ := mem_map.mp stored
  obtain ⟨old, rfl, read⟩ := Option.map_eq_some_iff.mp same
  exact ⟨old, inside, read⟩

theorem firstOf_normal (type : PAttrType) :
    firstOf type message.normal.attrs = (firstOf type message.attrs).map PAttr.normal :=
  firstOf_map normal_type _

/-- A path attribute is read as it is, up to its flags. -/
theorem normal_path (valid : ValidPath held) :
    held.normal.segments = held.segments ∧ parseAs4Context held.normal = parseAs4Context held ∧
      ValidPath held.normal := by
  obtain ⟨flags, data⟩ := held
  cases data with
  | mpReachIpv6 | mpUnreachIpv6 => cases valid.counted
  | _ => exact ⟨rfl, rfl, valid.counted, valid.writable⟩

/-- What is read carries the path that was written. -/
theorem Carried.normal (carried : Carried wide message.attrs held path) :
    Carried wide message.normal.attrs held.normal path := by
  obtain ⟨same, width, valid⟩ := normal_path carried.valid
  refine ⟨?_, width.trans carried.width, valid, fun as4 listed => ?_, ?_⟩
  · rw [firstOf_normal, carried.found]
    rfl
  · rw [firstOf_normal] at listed
    obtain ⟨shadow, found, rfl⟩ := Option.map_eq_some_iff.mp listed
    exact (normal_path (carried.shadows shadow found)).2.2
  · have shadow : (firstOf .as4Path message.normal.attrs).map PAttr.segments =
        (firstOf .as4Path message.attrs).map PAttr.segments := by
      rw [firstOf_normal, Option.map_map]
      refine Option.map_congr fun as4 found => ?_
      exact (normal_path (carried.shadows as4 found)).1
    rw [shadow, same]
    exact carried.restores

/-- The IPv6 prefixes that an attribute announces, with their next hop. -/
def announcedBy (attr : PAttr) : List (Announced 128) :=
  match attr.data with
  | .mpReachIpv6 nexthop linkLocal nexthopLen nlri => nlri.map fun pfx => ⟨pfx, nexthop, linkLocal, nexthopLen⟩
  | _ => []

/-- The IPv6 announcements of a message are those of its only IPv6 attribute. -/
theorem announced6_eq (single : countOf .mpReachIpv6 message.attrs ≤ 1) :
    announcedPrefixes message .ipv6 = ((firstOf .mpReachIpv6 message.attrs).map announcedBy).getD [] := by
  refine flatMap_firstOf single fun attr other => ?_
  obtain ⟨flags, data⟩ := attr
  cases data with
  | mpReachIpv6 => exact absurd rfl other
  | _ => rfl

theorem nextHopOf_firstOf (message : UpdateMsg) :
    nextHopOf message = match (firstOf .nextHop message.attrs).map PAttr.data with
      | some (.nextHop nextHop) => nextHop
      | _ => 0 := by
  have same : attrViewGet message.attrs 3 = firstOf .nextHop message.attrs := by
    rw [attrViewGet, firstOf]
    congr 1
    funext attr
    exact Bool.eq_iff_iff.mpr (by rw [beq_iff_eq, beq_iff_eq, PAttr.typeCode_nextHop])
  rw [← same]
  exact rfl

/-- Nothing is withdrawn by a message whose attributes pass. -/
theorem Routed.withdraws (routed : Routed fsm message prepared) (none : message.withdrawn = []) (family : Af) :
    withdrawnPrefixes prepared.normal family = [] := by
  cases family with
  | ipv4 =>
    show prepared.withdrawn.map Prefix.cleared = []
    rw [routed.withdrawn, none]
    rfl
  | ipv6 =>
    refine flatMap_eq_nil_iff.mpr fun attr member => ?_
    obtain ⟨old, stored, rfl⟩ := mem_normal (mem_filterMap_id.mp member)
    have kind := (routed.passes old stored).announces
    obtain ⟨flags, data⟩ := old
    cases data with
    | mpUnreachIpv6 => exact absurd rfl kind
    | _ => rfl

theorem Routed.countReach (routed : Routed fsm (exportedMessage af route) prepared) (clean : CleanRoute af route) :
    countOf .mpReachIpv6 prepared.normal.attrs ≤ 1 := by
  have few : countOf .mpReachIpv6 prepared.attrs ≤ 1 :=
    routed.counts _ (countOf_of_codes clean.exportable.exportedCodes nofun)
  exact Nat.le_trans (Nat.le_of_eq (countOf_map normal_type _)) few

/-- An IPv4 route is announced with its prefix alone. -/
theorem Routed.announces4 {route : Route Af.ipv4.family.width}
    (routed : Routed fsm (exportedMessage .ipv4 route) prepared)
    (clean : CleanRoute .ipv4 route) : Announces fsm .ipv4 route.pfx prepared.normal := by
  have nlri : prepared.normal.nlri = [route.pfx] := by
    show prepared.nlri.map Prefix.cleared = _
    rw [routed.nlri]
    exact congrArg (fun pfx => [pfx]) clean.pfx
  have listed : announcedPrefixes prepared.normal .ipv4 = [⟨route.pfx, nextHopOf prepared.normal, 0, 0⟩] := by
    rw [announcedPrefixes, nlri]
    rfl
  have silent : firstOf .mpReachIpv6 prepared.normal.attrs = none := by
    rw [firstOf_normal, routed.reach, firstOf_exported4]
    rfl
  refine ⟨?_, fun other apart => ?_, fun alters announced member => ?_⟩
  · rw [listed]
    rfl
  · cases other with
    | ipv4 => exact absurd rfl apart
    | ipv6 =>
      rw [announced6_eq (routed.countReach clean), silent]
      rfl
  · rw [listed] at member
    obtain rfl := mem_singleton.mp member
    obtain ⟨flags, nextHop, found, near⟩ := routed.nextHop (cons_ne_nil _ _) alters
    have read : nextHopOf prepared.normal = nextHop := by
      rw [nextHopOf_firstOf, firstOf_normal, found]
      rfl
    exact read ▸ near

/-- An IPv6 route is announced with its prefix alone. -/
theorem Routed.announces6 {route : Route Af.ipv6.family.width}
    (routed : Routed fsm (exportedMessage .ipv6 route) prepared)
    (clean : CleanRoute .ipv6 route) : Announces fsm .ipv6 route.pfx prepared.normal := by
  have reach : firstOf .mpReachIpv6 prepared.normal.attrs =
      some (alteredReach fsm (reachAttr route.nextHop route.nextHopLinklocal route.pfx)).normal := by
    rw [firstOf_normal, routed.reach, firstOf_exported6]
    rfl
  obtain ⟨nexthop, linkLocal, nexthopLen, data⟩ : ∃ nexthop linkLocal nexthopLen,
      (alteredReach fsm (reachAttr route.nextHop route.nextHopLinklocal route.pfx)).data =
        .mpReachIpv6 nexthop linkLocal nexthopLen [route.pfx] := by
    rcases alteredReach_cases fsm (reachAttr route.nextHop route.nextHopLinklocal route.pfx) with
      same | ⟨_, _, _, _, ⟨⟩, same⟩
    · rw [same]
      exact ⟨_, _, _, rfl⟩
    · rw [same]
      exact ⟨_, _, _, rfl⟩
  have listed : announcedPrefixes prepared.normal .ipv6 = [⟨route.pfx, nexthop, linkLocal, nexthopLen⟩] := by
    rw [announced6_eq (routed.countReach clean), reach]
    show announcedBy _ = _
    rw [announcedBy, PAttr.normal, data]
    exact congrArg (fun pfx => [(⟨pfx, nexthop, linkLocal, nexthopLen⟩ : Announced 128)]) clean.pfx
  refine ⟨?_, fun other apart => ?_, fun alters announced member => ?_⟩
  · rw [listed]
    rfl
  · cases other with
    | ipv4 =>
      show (prepared.nlri.map Prefix.cleared).map _ = []
      rw [routed.nlri]
      rfl
    | ipv6 => exact absurd rfl apart
  · rw [listed] at member
    obtain rfl := mem_singleton.mp member
    exact alteredReach_near alters _ _ _ _ data (cons_ne_nil _ _)

/-- All AS numbers of a prepared message have the width of the session. -/
theorem Routed.widths (routed : Routed fsm (exportedMessage af route) prepared) (clean : CleanRoute af route)
    (aggregator : ∀ attr, firstOf .aggregator prepared.attrs = some attr → parseAs4Context attr = fsm.peer4byteAsn)
    (carried : Carried fsm.peer4byteAsn prepared.attrs held path) (stored : some attr ∈ prepared.attrs) :
    attr.data.OfWidth fsm.peer4byteAsn := by
  have only {type : PAttrType} (known : type ≠ .unknown) (kind : attr.type = type) :
      firstOf type prepared.attrs = some attr :=
    firstOf_of_mem (routed.counts type (countOf_of_codes clean.exportable.exportedCodes known)) stored kind
  have known := (routed.passes attr stored).known
  obtain ⟨flags, data⟩ := attr
  cases data with
  | asPath segments is4b =>
    obtain rfl := Option.some.inj (carried.found.symm.trans (only nofun rfl))
    exact carried.width
  | aggregator asn routerId is4b => exact aggregator _ (only nofun rfl)
  | unknown code value undecoded => exact known code value undecoded rfl
  | _ => trivial

/-- A path with AS numbers of four bytes, and no shadow of it. -/
def WideAlone (attrs : List (Option PAttr)) : Prop :=
  ∃ flags segments, firstOf .asPath attrs = some ⟨flags, .asPath segments true⟩ ∧ firstOf .as4Path attrs = none

/-- A stored route has an AS path. -/
theorem Exportable.hasPath (exportable : Exportable af route) : ∃ attr, firstOf .asPath route.attrs = some attr := by
  obtain ⟨attr, stored, kind⟩ := exportable.path
  exact ⟨attr, firstOf_of_mem (countOf_of_codes exportable.codes nofun) stored kind⟩

/-- What a session sends for a stored route is read as an announcement of it. On a session with wide AS numbers it has
no shadow path. -/
theorem export_reads (clean : CleanRoute af route) (narrow : fsm.peer4byteAsn = false → WideAlone route.attrs)
    (exported : ExportOf fsm af route prepared) (written : updatePacketWrite prepared = .ok packet) :
    ∃ msg, (packetParseAs4 fsm.peer4byteAsn packet).outcome = .ok (.update msg, packet.length) ∧
      Forwarded fsm af route msg ∧ (fsm.peer4byteAsn = true → msg.findAttr .as4Path = none) := by
  obtain ⟨alloc, rest, done⟩ := exported.prepares clean
  have path : firstOf .asPath (exportedMessage af route).attrs = firstOf .asPath route.attrs :=
    firstOf_exported (fun _ kind => exportsAttr_path af (.inl kind)) nofun nofun
  have shadow : firstOf .as4Path (exportedMessage af route).attrs = firstOf .as4Path route.attrs :=
    firstOf_exported (fun _ kind => exportsAttr_path af (.inr kind)) nofun nofun
  obtain ⟨attr, found⟩ : ∃ attr, firstOf .asPath (exportedMessage af route).attrs = some attr :=
    path ▸ clean.exportable.hasPath
  obtain ⟨routed, aggregator, alone, segments, held, more, base, carried, same⟩ := prepareAdvertisements_routed done
    (fun _ stored => clean.message stored) (fun _ stored => exportedMessage_kinds stored)
    (countOf_of_codes clean.exportable.exportedCodes nofun) found fun short => by
      obtain ⟨flags, segments, listed, none⟩ := narrow short
      rw [shadow]
      obtain rfl := Option.some.inj (found.symm.trans (path.trans listed))
      exact ⟨rfl, none⟩
  have parsed := updatePacketWrite_parses (fun _ stored => routed.widths clean aggregator carried stored)
    (fun attr stored => (routed.passes attr stored).faithful) written
  refine ⟨prepared.normal, parsed, ⟨?_, ?_, ?_, ?_, ?_, ?_⟩, fun wide => ?_⟩
  · cases af with
    | ipv4 => exact routed.announces4 clean
    | ipv6 => exact routed.announces6 clean
  · cases af with
    | ipv4 | ipv6 => exact routed.withdraws rfl
  · have own : Carried (parseAs4Context attr) (UpdateMsg.attrs ⟨[], route.attrs, []⟩) attr segments :=
      base.congr path.symm shadow.symm
    obtain ⟨before, restored, listed⟩ := own.restored
    obtain ⟨after, again, longer⟩ := carried.normal.restored
    exact ⟨hops segments, ⟨before, restored, listed ▸ rfl⟩, after, again, longer ▸ same⟩
  · intro external
    refine find?_eq_none.mpr fun attr member kind => ?_
    obtain ⟨old, stored, rfl⟩ := mem_normal (mem_filterMap_id.mp member)
    exact (routed.passes old stored).preference external ((normal_type old).symm.trans (beq_iff_eq.mp kind))
  · intro attr stored optional transitive
    obtain ⟨old, inside, rfl⟩ := mem_normal stored
    obtain ⟨first, second, -⟩ := wireFlags_bits old
    exact (normal_type old).trans ((routed.passes old inside).optional (first ▸ optional) (second ▸ transitive))
  · intro external attr stored kind _
    obtain ⟨old, inside, rfl⟩ := mem_normal stored
    exact (wireFlags_bits old).2.2 ▸ (routed.passes old inside).marked external ((normal_type old).symm.trans kind)
  · exact (firstOf_normal .as4Path).trans (congrArg (Option.map PAttr.normal) (alone wide))

/-- A route that was learned from an UPDATE and is exported: the peer reads an announcement of exactly its prefix,
with its restored path behind the own AS for an external peer. A session with narrow AS numbers gets a wide path that
has no shadow. -/
theorem learned_route_forwarded (learned : LearnedFrom wide received af route)
    (narrow : fsm.peer4byteAsn = false → WideAlone route.attrs) (exported : ExportOf fsm af route prepared)
    (written : updatePacketWrite prepared = .ok packet) :
    ∃ msg, (packetParseAs4 fsm.peer4byteAsn packet).outcome = .ok (.update msg, packet.length) ∧
      Forwarded fsm af route msg := by
  obtain ⟨msg, parsed, forwarded, -⟩ := export_reads learned.clean narrow exported written
  exact ⟨msg, parsed, forwarded⟩

/-- An UPDATE from a peer with AS numbers of four bytes. -/
def sampleReceived (asns : List UInt32) (others : List (Option PAttr)) : UpdateMsg :=
  ⟨[], [some ⟨0x40, .origin 0⟩, some ⟨0x40, .asPath [⟨2, asns⟩] true⟩, some ⟨0x40, .nextHop 0x0a000009⟩] ++ others,
    [⟨0x0a000000, 8⟩]⟩

/-- The route that is stored for it. -/
def sampleStored (received : UpdateMsg) : Route 32 :=
  RibImpl.cloneOf 0 ((Fsm.init (sampleParams 65002)).announcedRoute received .ipv4 ⟨⟨0x0a000000, 8⟩, 0x0a000009, 0, 0⟩)

/-- An external peer that gets the route. -/
def samplePeer (wide : Bool) : Fsm := { Fsm.init (sampleParams 65003) with peerAsn := 65003, peer4byteAsn := wide }

theorem sampleStored_learned (received : UpdateMsg)
    (read : (updateParseAs4 true (updateBytes received)).outcome = .ok received)
    (valid : validateUpdate received = none)
    (announced : ⟨⟨0x0a000000, 8⟩, 0x0a000009, 0, 0⟩ ∈ announcedPrefixes received .ipv4) :
    LearnedFrom true received .ipv4 (sampleStored received) :=
  ⟨updateBytes received, Fsm.init (sampleParams 65002), _, 0, read, valid, announced, rfl⟩

theorem learned_route_forwarded_sample :
    ∃ packet msg, (packetParseAs4 false packet).outcome = .ok (.update msg, packet.length) ∧
    Forwarded (samplePeer false) .ipv4
      (sampleStored (sampleReceived [65002, 70000] [some ⟨0xc0, .unknown 99 [1] (by decide)⟩]))
      msg := by
  have exported : ∃ prepared packet, (samplePeer false).advertisedMessage libbgpCode .ipv4
      (sampleStored (sampleReceived [65002, 70000] [some ⟨0xc0, .unknown 99 [1] (by decide)⟩])) [] =
        (.ok prepared, []) ∧
      updatePacketWrite prepared = .ok packet := ⟨_, _, rfl, rfl⟩
  obtain ⟨prepared, packet, done, written⟩ := exported
  obtain ⟨msg, parsed, forwarded⟩ := learned_route_forwarded
    (sampleStored_learned _ (by decide +kernel) (by decide) (mem_singleton.mpr rfl))
    (fun _ => ⟨_, _, rfl, rfl⟩) (.advertised done) written
  exact ⟨packet, msg, parsed, forwarded⟩

/-- What is restored from a message is its path merged with its shadow. -/
theorem RestoresTo.merges {path : List Hop} (restores : RestoresTo message path)
    (found : message.findAttr .asPath = some attr) :
    ∃ merged, Restores message.path message.shadow merged ∧ hops merged = path := by
  obtain ⟨restored, done, rfl⟩ := restores
  obtain ⟨-, -, segments, restores, rfl⟩ := restoreAsPath_yields found (.ofOutcome done)
  have own : message.path = attr.segments := by rw [UpdateMsg.path, found]; rfl
  exact ⟨segments, own ▸ restores, by rw [UpdateMsg.path_withPath found]⟩

/-- A path without a shadow is restored as it is. -/
theorem RestoresTo.alone {path : List Hop} (restores : RestoresTo message path)
    (alone : message.findAttr .as4Path = none) : path = hops message.path := by
  rcases Option.eq_none_or_eq_some (message.findAttr .asPath) with absent | ⟨attr, found⟩
  · obtain ⟨restored, done, rfl⟩ := restores
    simp only [updateRestoreAsPath, absent] at done
    rw [Work.yields_pure (.ofOutcome done)]
  · obtain ⟨merged, merges, rfl⟩ := restores.merges found
    rw [UpdateMsg.shadow, alone] at merges
    cases merges with
    | alone => rfl

end Reading

end Libbgp
