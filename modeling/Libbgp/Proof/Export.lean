/-
What the functions that build messages do with memory, and which routes they can always turn into one.
-/

import Libbgp.Construction.Export
import Libbgp.Proof.ApplyUpdate

namespace Libbgp

open Library UpdateMsg List

variable (af : Af) (route : Route af.family.width) (update : UpdateMsg)

/-- A builder of messages asks for memory on the way: unless a request is refused, its result is the one
of an allocator that grants everything. -/
def Built (build : Allocator → Err × UpdateMsg × Allocator) : Prop :=
  ∀ alloc, (∃ rest, build alloc = ((build []).1, (build []).2.1, rest) ∧ alloc.Spent rest) ∨
    (∃ update rest, build alloc = (.nomem, update, rest) ∧ alloc.Refused rest)

namespace Built

variable {build : Allocator → Err × UpdateMsg × Allocator}

theorem pure (err : Err) (update : UpdateMsg) : Built fun alloc => (err, update, alloc) :=
  fun alloc => .inl ⟨alloc, rfl, .refl alloc⟩

/-- One request decides between a new message and the old one. -/
theorem request (update next : UpdateMsg) : Built fun alloc =>
    match alloc.request with
    | (true, alloc) => (.ok, next, alloc)
    | (false, alloc) => (.nomem, update, alloc) := by
  intro alloc
  rcases alloc.request_cases with ⟨rest, granted, spent⟩ | ⟨rest, denied, refused⟩
  · exact .inl ⟨rest, by simp [granted], spent⟩
  · exact .inr ⟨update, rest, by simp [denied], refused⟩

theorem generous (built : Built build) {alloc : Allocator} (generous : alloc.Generous) :
    ∃ rest, build alloc = ((build []).1, (build []).2.1, rest) ∧ alloc.Spent rest :=
  (built alloc).resolve_right fun ⟨_, _, _, refused⟩ => generous.not_refused refused

theorem spent (built : Built build) (alloc : Allocator) : alloc.Spent (build alloc).2.2 := by
  rcases built alloc with ⟨rest, done, spent⟩ | ⟨update, rest, failed, refused⟩
  · rwa [done]
  · rw [failed]
    exact refused.spent

/-- With memory to spare nothing is left of the empty list of answers. -/
theorem nil_eq (built : Built build) : build [] = ((build []).1, (build []).2.1, []) := by
  obtain ⟨rest, done, count, rfl⟩ := built.generous Allocator.generous_nil
  rwa [drop_nil] at done

/-- A builder may go on with the message of another one. -/
theorem bind {first : Allocator → Err × UpdateMsg × Allocator}
    {second : UpdateMsg → Allocator → Err × UpdateMsg × Allocator} (firstBuilt : Built first)
    (secondBuilt : ∀ update, Built (second update))
    (good : ∀ alloc update rest, first alloc = (.ok, update, rest) → build alloc = second update rest)
    (bad : ∀ alloc err update rest, first alloc = (err, update, rest) → err ≠ .ok →
      build alloc = (err, update, rest)) : Built build := by
  intro alloc
  have empty := firstBuilt.nil_eq
  rcases firstBuilt alloc with ⟨rest, done, spent⟩ | ⟨update, rest, failed, refused⟩
  · by_cases fine : (first []).1 = .ok
    · rw [fine] at done empty
      have later : build alloc = second (first []).2.1 rest := good _ _ _ done
      have start : build [] = second (first []).2.1 [] := good _ _ _ empty
      rcases secondBuilt (first []).2.1 rest with ⟨left, whole, more⟩ | ⟨update, left, whole, more⟩
      · exact .inl ⟨left, by rw [later, start]; exact whole, spent.trans more⟩
      · exact .inr ⟨update, left, later.trans whole, spent.trans_refused more⟩
    · have later := bad _ _ _ _ done fine
      have start := bad _ _ _ _ empty fine
      exact .inl ⟨rest, by rw [later, start], spent⟩
  · exact .inr ⟨update, rest, bad _ _ _ _ failed (fun same => nomatch same), refused⟩

end Built

namespace UpdateMsg

variable (update : UpdateMsg)

theorem addAttr_built (attr : PAttr) : Built (update.addAttr attr) := by
  unfold addAttr
  split
  · exact Built.pure _ _
  · exact Built.request _ _

theorem addNewAttr_built (attr : PAttr) (requests : Nat) : Built (update.addNewAttr attr requests) := by
  intro alloc
  have start : update.addNewAttr attr requests [] = update.addAttr attr [] := by
    simp only [addNewAttr, Allocator.requests_nil]
  rcases alloc.requests_cases requests with ⟨rest, granted, spent⟩ | ⟨rest, denied, refused⟩
  · have later : update.addNewAttr attr requests alloc = update.addAttr attr rest := by
      simp only [addNewAttr, granted]
    rw [start, later]
    rcases addAttr_built update attr rest with ⟨left, done, more⟩ | ⟨result, left, failed, more⟩
    · exact .inl ⟨left, done, spent.trans more⟩
    · exact .inr ⟨result, left, failed, spent.trans_refused more⟩
  · exact .inr ⟨update, rest, by simp only [addNewAttr, denied], refused⟩

theorem addNlri_built (pfx : Prefix 32) : Built (update.addNlri pfx) := by
  unfold addNlri
  split
  · exact Built.pure _ _
  · exact Built.request _ _

theorem ensureOrigin_built (origin : UInt8) : Built (update.ensureOrigin origin) := by
  unfold ensureOrigin
  split
  · exact Built.pure _ _
  · exact addNewAttr_built _ _ _

theorem ensureEmptyAsPath_built : Built update.ensureEmptyAsPath := by
  unfold ensureEmptyAsPath
  split
  · exact Built.pure _ _
  · exact addNewAttr_built _ _ _

theorem setNextHop4_built (nextHop : BitVec 32) : Built (update.setNextHop4 nextHop) := by
  unfold setNextHop4
  split
  · exact Built.pure _ _
  · exact addNewAttr_built _ _ _

/-- A route's attributes are added unless memory is refused. -/
theorem addRouteAttrs_built (keep : PAttr → Bool) (attrs : List (Option PAttr)) (update : UpdateMsg) :
    Built (addRouteAttrs keep attrs update) := by
  induction attrs generalizing update with
  | nil => exact Built.pure _ _
  | cons head rest ih =>
    cases head with
    | none => exact Built.pure _ _
    | some attr =>
      by_cases kept : keep attr = true
      · -- An attribute that is there already counts as added.
        have tolerant : Built fun alloc =>
            match update.addAttr attr alloc with
            | (.existing, update, alloc) => (.ok, update, alloc)
            | result => result := by
          unfold addAttr
          split
          · exact Built.pure _ _
          · intro alloc
            rcases alloc.request_cases with ⟨left, granted, spent⟩ | ⟨left, denied, refused⟩
            · exact .inl ⟨left, by simp [granted], spent⟩
            · exact .inr ⟨update, left, by simp [denied], refused⟩
        refine tolerant.bind ih ?_ ?_
        · intro alloc added left done
          simp only [addRouteAttrs, kept, if_true]
          rcases result : update.addAttr attr alloc with ⟨err, message, tail⟩
          rw [result] at done
          cases err <;> cases done <;> rfl
        · intro alloc err added left done wrong
          simp only [addRouteAttrs, kept, if_true]
          rcases result : update.addAttr attr alloc with ⟨code, message, tail⟩
          rw [result] at done
          cases code <;> cases done <;> first | rfl | exact absurd rfl wrong
      · have skipped : addRouteAttrs keep (some attr :: rest) update = addRouteAttrs keep rest update := by
          funext alloc
          simp only [addRouteAttrs, kept, Bool.false_eq_true, if_false]
        rw [skipped]
        exact ih update

end UpdateMsg

theorem addReachable_built : Built (addReachable af route update) := by
  cases af with
  | ipv4 =>
    refine (setNextHop4_built update route.nextHop).bind
      (fun next => addNlri_built next route.pfx) ?_ ?_
    · intro alloc next rest done
      simp only [addReachable, done]
    · intro alloc err next rest done wrong
      simp only [addReachable, done]
      cases err <;> first | rfl | exact absurd rfl wrong
  | ipv6 => exact addNewAttr_built _ _ _

theorem emptyAsPath_built : Built fun alloc =>
    match ensureEmptyAsPath update alloc with
    | (.ok, update, alloc) => addReachable af route update alloc
    | failed => failed := by
  refine (ensureEmptyAsPath_built update).bind (addReachable_built af route) ?_ ?_
  · intro alloc next rest done
    simp only [done]
  · intro alloc err next rest done wrong
    simp only [done]
    cases err <;> first | rfl | exact absurd rfl wrong

theorem origin_built : Built fun alloc =>
    match ensureOrigin update route.origin alloc with
    | (.ok, update, alloc) =>
      match ensureEmptyAsPath update alloc with
      | (.ok, update, alloc) => addReachable af route update alloc
      | failed => failed
    | failed => failed := by
  refine (ensureOrigin_built update route.origin).bind (emptyAsPath_built af route) ?_ ?_
  · intro alloc next rest done
    simp only [done]
  · intro alloc err next rest done wrong
    simp only [done]
    cases err <;> first | rfl | exact absurd rfl wrong

/-- The message of a route does not depend on the allocator unless memory is refused. -/
theorem updateFromRoute_built : Built (updateFromRoute af route) := by
  unfold updateFromRoute
  split
  · exact Built.pure _ _
  refine (addRouteAttrs_built (exportsAttr af) route.attrs .empty).bind (origin_built af route) ?_ ?_
  · intro alloc next rest done
    exact done ▸ rfl
  · intro alloc err next rest done wrong
    simp only [done]
    cases err <;> first | rfl | exact absurd rfl wrong

/-- The attributes of a route that its message carries. -/
def keptAttrs (af : Af) (attrs : List (Option PAttr)) : List (Option PAttr) :=
  attrs.filter fun attr => attr.any (exportsAttr af)

/-- The message of an exportable route. -/
def exportedMessage : (af : Af) → Route af.family.width → UpdateMsg
  | .ipv4, route => ⟨[], replaceNextHop route.nextHop (keptAttrs .ipv4 route.attrs), [route.pfx]⟩
  | .ipv6, route =>
    let linkLocal := route.nextHopLinklocal
    ⟨[], keptAttrs .ipv6 route.attrs ++
      [some ⟨0x80, .mpReachIpv6 route.nextHop linkLocal (if linkLocal = 0 then 16 else 32) [route.pfx]⟩], []⟩

/-- What the stored routes have in common that were learned from an accepted message. -/
structure Exportable (af : Af) (route : Route af.family.width) : Prop where
  fits : route.pfx.len ≤ af.family.width
  present : none ∉ route.attrs
  codes : ((route.attrs.filterMap id).map PAttr.typeCode).Nodup
  origin : ∃ attr, some attr ∈ route.attrs ∧ attr.type = .origin
  path : ∃ attr, some attr ∈ route.attrs ∧ attr.type = .asPath
  nextHop : af = .ipv4 → ∃ attr, some attr ∈ route.attrs ∧ attr.type = .nextHop
  reach : af = .ipv6 → ∀ attr, some attr ∈ route.attrs → attr.typeCode ≠ 14

section Exporting

variable {af : Af} {route : Route af.family.width} {attrs : List (Option PAttr)}
  {attr : PAttr} {update : UpdateMsg} {type : PAttrType} {alloc : Allocator}

theorem mem_filterMap_id : attr ∈ attrs.filterMap id ↔ some attr ∈ attrs := by
  simp [mem_filterMap]

theorem some_mem_keptAttrs : some attr ∈ keptAttrs af attrs ↔ some attr ∈ attrs ∧ exportsAttr af attr = true := by
  simp [keptAttrs, mem_filter]

theorem addAttr_fresh (fresh : ∀ held, some held ∈ update.attrs → held.typeCode ≠ attr.typeCode) :
    update.addAttr attr [] = (.ok, { update with attrs := update.attrs ++ [some attr] }, []) := by
  have none : (update.attrs.filterMap id).any (fun held => held.typeCode == attr.typeCode) = false := by
    rw [any_eq_false]
    intro held member same
    exact fresh held (mem_filterMap_id.mp member) (by simpa using same)
  simp only [addAttr, none, Bool.false_eq_true, if_false, Allocator.request_nil]

/-- Attributes of different types are all added. -/
theorem addRouteAttrs_distinct (keep : PAttr → Bool) (present : none ∉ attrs) (update : UpdateMsg)
    (codes : ((update.attrs.filterMap id ++ attrs.filterMap id).map PAttr.typeCode).Nodup) :
    addRouteAttrs keep attrs update [] =
      (.ok, { update with attrs := update.attrs ++ attrs.filter fun attr => attr.any keep }, []) := by
  induction attrs generalizing update with
  | nil => simp [addRouteAttrs]
  | cons head rest ih =>
    cases head with
    | none => exact absurd mem_cons_self present
    | some attr =>
      have later : none ∉ rest := fun inside => present (mem_cons_of_mem _ inside)
      simp only [filterMap_cons_some (show id (some attr) = some attr from rfl)] at codes
      by_cases kept : keep attr = true
      · have added : update.addAttr attr [] = (.ok, { update with attrs := update.attrs ++ [some attr] }, []) := by
          refine addAttr_fresh fun held member => ?_
          rw [map_append, nodup_append] at codes
          exact codes.2.2 _ (mem_map_of_mem (mem_filterMap_id.mpr member)) _
            (mem_map_of_mem mem_cons_self)
        have shifted : (({ update with attrs := update.attrs ++ [some attr] } : UpdateMsg).attrs.filterMap id ++
            rest.filterMap id) = update.attrs.filterMap id ++ attr :: rest.filterMap id := by
          simp
        simp only [addRouteAttrs, kept, if_true, added]
        rw [ih later _ (by rwa [shifted])]
        simp [kept]
      · have smaller : ((update.attrs.filterMap id ++ rest.filterMap id).map PAttr.typeCode).Nodup := by
          refine codes.sublist (List.Sublist.map _ (List.Sublist.append_left ?_ _))
          exact sublist_cons_self _ _
        simp only [addRouteAttrs, kept, Bool.false_eq_true, if_false]
        rw [ih later _ smaller]
        simp [kept]

theorem findAttr_isSome_iff :
    (update.findAttr type).isSome = true ↔ ∃ attr, some attr ∈ update.attrs ∧ attr.type = type := by
  rw [findAttr, find?_isSome]
  constructor
  · rintro ⟨attr, member, same⟩
    exact ⟨attr, mem_filterMap_id.mp member, by simpa using same⟩
  · rintro ⟨attr, member, same⟩
    exact ⟨attr, mem_filterMap_id.mpr member, by simpa using same⟩

section

variable (exportable : Exportable af route)

include exportable

/-- An exportable route always gets its message when there is memory. -/
theorem Exportable.updateFromRoute_eq : updateFromRoute af route [] = (.ok, exportedMessage af route, []) := by
  have fits : ¬ af.family.width < route.pfx.len := Nat.not_lt.mpr exportable.fits
  have attrs := addRouteAttrs_distinct (exportsAttr af) exportable.present .empty
    (by simpa [empty] using exportable.codes)
  have keptAll : ({ empty with
      attrs := empty.attrs ++ route.attrs.filter fun attr => attr.any (exportsAttr af) } : UpdateMsg) =
      ⟨[], keptAttrs af route.attrs, []⟩ := rfl
  rw [keptAll] at attrs
  have kept : ∀ type, type ≠ .mpReachIpv6 → type ≠ .mpUnreachIpv6 → (af = .ipv6 → type ≠ .nextHop) →
      (∃ attr, some attr ∈ route.attrs ∧ attr.type = type) →
      ((⟨[], keptAttrs af route.attrs, []⟩ : UpdateMsg).findAttr type).isSome = true := by
    intro type notReach notUnreach notHop ⟨attr, member, same⟩
    refine findAttr_isSome_iff.mpr ⟨attr, some_mem_keptAttrs.mpr ⟨member, ?_⟩, same⟩
    cases af with
    | ipv4 => simp [exportsAttr, ipv4RouteAttr, same, notReach, notUnreach]
    | ipv6 => simp [exportsAttr, ipv6RouteAttr, same, notReach, notUnreach, notHop rfl]
  have origin := kept .origin (by decide) (by decide) (fun _ => by decide) exportable.origin
  have path := kept .asPath (by decide) (by decide) (fun _ => by decide) exportable.path
  simp only [updateFromRoute, fits, if_false, attrs, ensureOrigin, origin, if_true,
    ensureEmptyAsPath, path]
  cases af with
  | ipv4 =>
    have hop := kept .nextHop (by decide) (by decide) nofun (exportable.nextHop rfl)
    have short : ¬ 32 < route.pfx.len := fits
    simp [addReachable, setNextHop4, hop, addNlri, short, exportedMessage]
  | ipv6 =>
    simp only [addReachable, addMpReach6, addNewAttr, Allocator.requests_nil]
    rw [addAttr_fresh]
    · rfl
    · intro held member
      exact exportable.reach rfl held (some_mem_keptAttrs.mp member).1

theorem Exportable.exports (generous : alloc.Generous) :
    ∃ rest, updateFromRoute af route alloc = (.ok, exportedMessage af route, rest) ∧ alloc.Spent rest := by
  have built := (updateFromRoute_built af route).generous generous
  rwa [exportable.updateFromRoute_eq] at built

/-- A message that could be built is the exported one. -/
theorem Exportable.message {rest : Allocator}
    (built : updateFromRoute af route alloc = (.ok, update, rest)) : update = exportedMessage af route := by
  rcases updateFromRoute_built af route alloc with ⟨left, whole, -⟩ | ⟨other, left, refused, -⟩
  · rw [built, exportable.updateFromRoute_eq] at whole
    exact congrArg (fun result => result.2.1) whole
  · cases congrArg Prod.fst (built.symm.trans refused)

theorem Exportable.clone (counter : UInt64) : Exportable af (RibImpl.cloneOf counter route) :=
  ⟨exportable.fits, exportable.present, exportable.codes, exportable.origin, exportable.path, exportable.nextHop,
    exportable.reach⟩

end

theorem exists_of_countType (one : countType update type = 1) :
    ∃ attr, some attr ∈ update.attrs ∧ attr.type = type := by
  have positive : 0 < countType update type := by omega
  obtain ⟨attr, member, same⟩ := countP_pos_iff.mp positive
  exact ⟨attr, mem_filterMap_id.mp member, by simpa using same⟩

/-- Every route of an accepted message can be exported. -/
theorem ValidUpdate.exportable (valid : ValidUpdate update) (fsm : Fsm) {announced : Announced af.family.width}
    (member : announced ∈ announcedPrefixes update af) : Exportable af (fsm.announcedRoute update af announced) := by
  have fits := (valid.fits member).1
  cases af with
  | ipv4 =>
    obtain ⟨pfx, listed, -⟩ := mem_map.mp member
    obtain ⟨origin, path, hop⟩ := valid.wellKnown4 (ne_nil_of_mem listed)
    exact ⟨fits, valid.attrs.present, valid.attrs.codes, exists_of_countType origin, exists_of_countType path,
      fun _ => exists_of_countType hop, nofun⟩
  | ipv6 =>
    obtain ⟨reach, reachIn, nexthop, linkLocal, len, nlri, data, inside, -⟩ := mem_announced6.mp member
    have announces : mpReachHasNlri update = true := by
      refine any_eq_true.mpr ⟨reach, reachIn, ?_⟩
      simp only [data]
      cases nlri with
      | nil => cases inside
      | cons _ _ => rfl
    obtain ⟨origin, path⟩ := valid.wellKnown6 announces
    have kept : ∀ type, type ≠ .nextHop → type ≠ .mpReachIpv6 → type ≠ .mpUnreachIpv6 →
        countType update type = 1 → ∃ attr, some attr ∈ routeAttrs update.attrs .ipv6 ∧ attr.type = type := by
      intro type notHop notReach notUnreach one
      obtain ⟨attr, held, same⟩ := exists_of_countType one
      refine ⟨attr, mem_filter.mpr ⟨held, ?_⟩, same⟩
      simp [ipv6RouteAttr, same, notHop, notReach, notUnreach]
    refine ⟨fits, ?_, ?_, kept .origin (by decide) (by decide) (by decide) origin,
      kept .asPath (by decide) (by decide) (by decide) path, fun impossible => (nomatch impossible), ?_⟩
    · intro missing
      exact valid.attrs.present (mem_filter.mp missing).1
    · refine valid.attrs.codes.sublist (List.Sublist.map _ (List.Sublist.filterMap _ ?_))
      exact filter_sublist
    · -- The attribute that announces the prefix is the only one with its code.
      intro _ attr held code
      obtain ⟨inUpdate, passes⟩ := mem_filter.mp held
      have same : attr = reach := by
        refine inj_on_of_nodup_map valid.attrs.codes (mem_filterMap_id.mpr inUpdate) reachIn ?_
        rw [code]
        simp only [PAttr.typeCode, data]
      rw [same] at passes
      simp [ipv6RouteAttr, PAttr.type, data] at passes

end Exporting

/-- A message is sent for the route of an event: the filter decision when there is memory. -/
def Fsm.exports (fsm : Fsm) (af : Af) (source : RouterId) (pfx : Prefix af.family.width) (update : UpdateMsg) : Bool :=
  (fsm.outPermits af source pfx update []).1

section Sending

variable (fsm : Fsm) (code : MessageCode) (af : Af) (source : RouterId) (pfx : Prefix af.family.width)
  (update : UpdateMsg) (alloc : Allocator) {rest : Allocator}
  (announced : Announced af.family.width) (weight : Int) (isIbgp : Bool)

/-- Making a route fails for lack of memory, or does the same as with memory to spare. -/
theorem makeRoute_steady :
    (∃ rest, makeRoute af source update announced weight isIbgp alloc =
      ((makeRoute af source update announced weight isIbgp []).1, rest) ∧ alloc.Spent rest) ∨
    (∃ rest, makeRoute af source update announced weight isIbgp alloc = (.error .nomem, rest) ∧
      alloc.Refused rest) := by
  cases af with
  | ipv4 => exact .inl ⟨alloc, rfl, .refl alloc⟩
  | ipv6 =>
    simp only [makeRoute]
    split
    · exact .inl ⟨alloc, rfl, .refl alloc⟩
    split
    · exact .inl ⟨alloc, rfl, .refl alloc⟩
    rcases alloc.request_cases with ⟨rest, granted, spent⟩ | ⟨rest, denied, refused⟩
    · exact .inl ⟨rest, by simp only [granted, Allocator.request_nil], spent⟩
    · exact .inr ⟨rest, by simp only [denied], refused⟩

/-- The outbound filter decides, unless memory runs out. -/
theorem outPermits_cases :
    (∃ rest, fsm.outPermits af source pfx update alloc = (fsm.exports af source pfx update, rest) ∧ alloc.Spent rest) ∨
    (∃ rest, fsm.outPermits af source pfx update alloc = (false, rest) ∧ alloc.Refused rest) := by
  cases af with
  | ipv4 => exact .inl ⟨alloc, rfl, .refl alloc⟩
  | ipv6 =>
    simp only [Fsm.exports, Fsm.outPermits, Fsm.outFilter6Permits]
    cases fsm.params.outFilter .ipv6 with
    | none => exact .inl ⟨alloc, rfl, .refl alloc⟩
    | some permits =>
      cases announcedFor update .ipv6 pfx with
      | none => exact .inl ⟨alloc, rfl, .refl alloc⟩
      | some announced =>
        rcases makeRoute_steady .ipv6 source update alloc announced fsm.params.routeWeight fsm.isIbgp with
          ⟨rest, done, spent⟩ | ⟨rest, failed, refused⟩
        · refine .inl ⟨rest, ?_, spent⟩
          rcases result : makeRoute .ipv6 source update announced fsm.params.routeWeight fsm.isIbgp [] with
            ⟨made, left⟩
          rw [result] at done
          simp only [done, result]
          cases made <;> rfl
        · exact .inr ⟨rest, by simp only [failed], refused⟩

/-- What holds of every message that is built to be sent: only memory was used, and an error is one. -/
structure Sendable (alloc : Allocator) (built : Except Err UpdateMsg × Allocator) : Prop where
  spent : alloc.Spent built.2
  fails : ∀ err, built.1 = .error err → err ≠ .ok

theorem Sendable.ofOk (spent : alloc.Spent rest) : Sendable alloc (.ok update, rest) :=
  ⟨spent, fun _ impossible => nomatch impossible⟩

theorem Sendable.ofError {err : Err} (spent : alloc.Spent rest) (wrong : err ≠ .ok) :
    Sendable alloc (.error err, rest) :=
  ⟨spent, fun other same => by cases same; exact wrong⟩

theorem Sendable.after {built : Except Err UpdateMsg × Allocator} (spent : alloc.Spent rest)
    (sendable : Sendable rest built) : Sendable alloc built :=
  ⟨spent.trans sendable.spent, sendable.fails⟩

theorem MessageOp.run_sendable (op : MessageOp) : Sendable alloc (op.run update alloc) := by
  rcases op.run_cases update alloc with ⟨rest, done, spent⟩ | ⟨rest, failed, refused⟩
  · rw [done]
    exact ⟨spent, op.fails update⟩
  · rw [failed]
    exact .ofError _ refused.spent (by decide)

theorem alterNexthop4_built : Built (fsm.alterNexthop4 update) := by
  unfold Fsm.alterNexthop4
  split
  · exact Built.pure _ _
  dsimp only
  generalize (fsm.params.forceDefaultNexthop .ipv4 || _) = usesDefault
  split
  · exact Built.pure _ _
  split
  · exact Built.pure _ _
  · exact setNextHop4_built _ _

/-- Preparing an advertisement only uses memory. -/
theorem prepareAdvertisements_sendable : Sendable alloc (fsm.prepareAdvertisements code update alloc) := by
  unfold Fsm.prepareAdvertisements
  dsimp only
  split
  · rename_i err failed
    refine .ofError _ (.refl alloc) fun same => ?_
    subst same
    unfold prepareForwardAttrs at failed
    split at failed <;> cases failed
  rename_i forwarded _
  have first := (alterNexthop4_built fsm forwarded).spent alloc
  split
  · rename_i altered rest same
    rw [same] at first
    split
    · rename_i err failed
      refine .ofError _ first fun same => ?_
      subst same
      unfold Fsm.alterNexthop6 at failed
      split at failed
      · cases failed
      dsimp only at failed
      split at failed <;> cases failed
    rename_i altered6 _
    refine .after _ first ?_
    have path := MessageOp.run_sendable altered6 rest
      (if fsm.peer4byteAsn then code.restoreAsPath else code.downgradeAsPath)
    split
    · rename_i failed
      rwa [failed] at path
    rename_i restored left done
    rw [done] at path
    refine .after _ path.spent ?_
    have aggregator := MessageOp.run_sendable restored left
      (if fsm.peer4byteAsn then code.restoreAggregator else code.downgradeAggregator)
    split
    · rename_i failed
      rwa [failed] at aggregator
    rename_i aggregated last done
    rw [done] at aggregator
    split
    · exact .ofOk _ _ aggregator.spent
    · exact .after _ aggregator.spent (MessageOp.run_sendable _ _ _)
  · rename_i err _ rest wrong same
    rw [same] at first
    exact .ofError _ first wrong

theorem prepareUpdate_sendable : Sendable alloc (fsm.prepareUpdate code update alloc) := by
  unfold Fsm.prepareUpdate
  have cloned := MessageOp.run_sendable update alloc code.cloneUpdate
  split
  · rename_i failed
    rwa [failed] at cloned
  rename_i copy rest done
  rw [done] at cloned
  refine .after _ cloned.spent ?_
  split
  · exact prepareAdvertisements_sendable _ _ _ _
  · exact .ofOk _ _ (.refl rest)

theorem makeRoute_spent : alloc.Spent (makeRoute af source update announced weight isIbgp alloc).2 := by
  rcases makeRoute_steady af source update alloc announced weight isIbgp with
    ⟨rest, done, spent⟩ | ⟨rest, failed, refused⟩
  · rwa [done]
  · rw [failed]
    exact refused.spent

theorem makeRoute_fails : (makeRoute af source update announced weight isIbgp alloc).1 ≠ .error .ok := by
  cases af with
  | ipv4 =>
    intro impossible
    cases impossible
  | ipv6 =>
    simp only [makeRoute]
    split
    · intro impossible
      cases impossible
    split
    · intro impossible
      cases impossible
    split <;> exact nofun

/-- The answer to a new route only uses memory. -/
theorem routeAddedMessage_sendable : Sendable alloc (fsm.routeAddedMessage code af source pfx update alloc) := by
  have route : alloc.Spent (fsm.eventRoute af source pfx update alloc).2 ∧
      ∀ err, (fsm.eventRoute af source pfx update alloc).1 = .error err → err ≠ .ok := by
    unfold Fsm.eventRoute
    split
    · exact ⟨.refl alloc, fun err same => by cases same; decide⟩
    rename_i announced _
    refine ⟨makeRoute_spent _ _ _ _ _ _ _, fun err failed => ?_⟩
    rintro rfl
    exact makeRoute_fails _ _ _ _ _ _ _ failed
  unfold Fsm.routeAddedMessage
  split
  · rename_i failed
    rw [failed] at route
    exact .ofError _ route.1 (route.2 _ rfl)
  rename_i made rest done
  rw [done] at route
  refine .after _ route.1 ?_
  have message := (updateFromRoute_built af made).spent rest
  split
  · rename_i same
    rw [same] at message
    exact .after _ message (prepareUpdate_sendable _ _ _ _)
  · rename_i wrong same
    rw [same] at message
    exact .ofError _ message wrong

/-- A withdrawal only uses memory. -/
theorem withdrawMessage_sendable : Sendable alloc (withdrawMessage af pfx alloc) := by
  cases af with
  | ipv4 =>
    simp only [withdrawMessage]
    split
    · exact .ofError _ (.refl alloc) (by decide)
    rcases alloc.request_cases with ⟨rest, granted, spent⟩ | ⟨rest, denied, refused⟩
    · rw [granted]
      exact .ofOk _ _ spent
    · rw [denied]
      exact .ofError _ refused.spent (by decide)
  | ipv6 =>
    have built := (addNewAttr_built .empty ⟨0x80, .mpUnreachIpv6 [pfx]⟩ 2).spent alloc
    simp only [withdrawMessage]
    split
    · rename_i same
      rw [same] at built
      exact .ofOk _ _ built
    · rename_i wrong same
      rw [same] at built
      exact .ofError _ built wrong

end Sending

end Libbgp
