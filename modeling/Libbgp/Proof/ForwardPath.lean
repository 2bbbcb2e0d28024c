/-
The AS path of a message that is passed on: what a reader restores from it, step by step.
-/

import Libbgp.Proof.Forward

namespace Libbgp

open Library

/-- The path attributes of a message, with AS numbers of a width, and the path that is restored from them. -/
structure Carried (wide : Bool) (attrs : List (Option PAttr)) (held : PAttr)
    (segments : List AsPathSegment) : Prop where
  found : firstOf .asPath attrs = some held
  width : parseAs4Context held = wide
  valid : ValidPath held
  shadows : ∀ as4, firstOf .as4Path attrs = some as4 → ValidPath as4
  restores : Restores held.segments ((firstOf .as4Path attrs).map PAttr.segments) segments

section Restored

variable {wide isIbgp : Bool} {attrs before : List (Option PAttr)} {attr held : PAttr}
  {segments path : List AsPathSegment}
  {shadow : Option (List AsPathSegment)} {asn : UInt32} {update after : UpdateMsg} {kinds : List PAttrType}

theorem Restores.solid (restores : Restores segments shadow path) (solid : Solid segments)
    (listed : ∀ as4, shadow = some as4 → Solid as4) : Solid path := by
  cases restores with
  | alone => exact solid
  | filled short sparse => exact solid.fill (Nat.le_of_eq sparse.2.1)
  | joined short dense uncut => exact solid_kept.append (listed _ rfl)

theorem Restores.writable (restores : Restores segments shadow path) (writable : Writable segments)
    (listed : ∀ as4, shadow = some as4 → Writable as4) : Writable path := by
  cases restores with
  | alone => exact writable
  | filled short sparse => exact writable.fill (Nat.le_of_eq sparse.2.1)
  | joined short dense uncut => exact List.forall_mem_append.mpr ⟨writable_kept writable, listed _ rfl⟩

theorem Solid.prependedShadow (solid : Solid segments) (listed : ∀ as4, shadow = some as4 → Solid as4) :
    Solid (prependedShadow segments asn shadow) := by
  cases shadow with
  | none => exact solid.prepended
  | some as4 => exact solid_kept.append (listed as4 rfl)

/-- The same attributes carry the same path. -/
theorem Carried.congr (carried : Carried wide before held path) (same : firstOf .asPath attrs = firstOf .asPath before)
    (shadow : firstOf .as4Path attrs = firstOf .as4Path before) : Carried wide attrs held path :=
  ⟨same.trans carried.found, carried.width, carried.valid, shadow ▸ carried.shadows, shadow ▸ carried.restores⟩

theorem Carried.rewrites (carried : Carried wide update.attrs held path) (rewrites : Rewrites isIbgp kinds update after)
    (apart : PAttrType.asPath ∉ kinds ∧ PAttrType.as4Path ∉ kinds) : Carried wide after.attrs held path :=
  carried.congr (rewrites.attrs.others _ apart.1) (rewrites.attrs.others _ apart.2)

/-- The path is restored. -/
theorem Carried.restored (carried : Carried wide update.attrs held path) :
    ∃ restored, (updateRestoreAsPath update).outcome = .ok restored ∧ restored.path = path := by
  have held : update.findAttr .asPath = some held := carried.found
  exact ⟨_, (restoreAsPath_gives held carried.valid carried.shadows carried.restores).outcome,
    UpdateMsg.path_withPath held⟩

/-- The segments of a path attribute that passes are not empty. -/
theorem Passable.solid (passes : Passable isIbgp attr) : Solid attr.segments := by
  obtain ⟨flags, data⟩ := attr
  have faithful := passes.faithful
  cases data with
  | asPath | as4Path => exact faithful
  | _ => exact nofun

theorem passable_path (solid : Solid segments) : Passable isIbgp (newPath .asPath segments wide) :=
  passable_new .asPath (by decide) solid rfl (by decide)

theorem passable_shadow (solid : Solid segments) : Passable isIbgp (newPath .as4Path segments true) :=
  passable_new .as4Path (by decide) solid rfl (by decide)

theorem rewrites_putPaths {shadow : List AsPathSegment} (solid : Solid segments) (listed : Solid shadow) :
    Rewrites isIbgp [.asPath, .as4Path] update
      ⟨update.withdrawn, putPaths update.attrs segments shadow, update.nlri⟩ := by
  have path : Passable isIbgp (newPath .asPath segments false) := passable_path solid
  have first : Rewrites isIbgp [.asPath, .as4Path] update _ := .put (List.mem_cons_self ..) path
  exact first.trans (.put (List.mem_cons_of_mem _ (List.mem_cons_self ..)) (passable_shadow listed))

/-- The shadow of a message whose attributes pass has no empty segment. -/
theorem solid_shadow (passes : AllPassable isIbgp attrs) (as4 : List AsPathSegment)
    (listed : (firstOf .as4Path attrs).map PAttr.segments = some as4) : Solid as4 := by
  obtain ⟨shadow, found, rfl⟩ := Option.map_eq_some_iff.mp listed
  exact (passes shadow (mem_of_firstOf found)).solid

theorem Carried.solid (carried : Carried wide attrs held path) (passes : AllPassable isIbgp attrs) : Solid path :=
  carried.restores.solid (passes held (mem_of_firstOf carried.found)).solid (solid_shadow passes)

theorem Carried.writable (carried : Carried wide attrs held path) : Writable path := by
  refine carried.restores.writable carried.valid.writable fun as4 listed => ?_
  obtain ⟨shadow, found, rfl⟩ := Option.map_eq_some_iff.mp listed
  exact (carried.shadows shadow found).writable

end Restored

section Steps

variable {wide isIbgp : Bool} {attr held : PAttr} {path : List AsPathSegment} {asn : UInt32} {update after : UpdateMsg}

/-- What can be restored is carried. -/
theorem restoreAsPath_carried (found : firstOf .asPath update.attrs = some attr)
    (yields : Work.Yields (updateRestoreAsPath update) after) :
    ∃ path, Carried (parseAs4Context attr) update.attrs attr path := by
  obtain ⟨valid, shadows, path, restores, -⟩ := restoreAsPath_yields found yields
  exact ⟨path, found, rfl, valid, shadows, restores⟩

/-- For a session with wide AS numbers the path is restored, and it has no shadow. -/
theorem restoreAsPath_rewrites (carried : Carried wide update.attrs attr path)
    (single : countOf .as4Path update.attrs ≤ 1) (passes : AllPassable isIbgp update.attrs)
    (yields : Work.Yields (updateRestoreAsPath update) after) :
    Rewrites isIbgp [.asPath, .as4Path] update after ∧ firstOf .as4Path after.attrs = none ∧
      Carried true after.attrs (widen path attr) path := by
  have held : update.findAttr .asPath = some attr := carried.found
  obtain rfl := yields.unique (restoreAsPath_gives held carried.valid carried.shadows carried.restores)
  have alone : firstOf .as4Path (update.withPath path).attrs = none := UpdateMsg.shadow_withPath single
  have found : firstOf .asPath (update.withPath path).attrs = some (widen path attr) := by
    refine (firstOf_removeAttrType_other (by decide)).trans ((firstOf_changeFirst UpdateMsg.type_widen).trans ?_)
    exact congrArg (Option.map _) carried.found
  have rewrites : Rewrites isIbgp [.asPath, .as4Path] update (update.withPath path) := by
    refine ⟨rfl, rfl, .trans (.changeFirst (List.mem_cons_self ..) UpdateMsg.type_widen ?_)
      (.remove (List.mem_cons_of_mem _ (List.mem_cons_self ..)))⟩
    exact fun old stored kind => (passes old stored).withData kind.symm (kind ▸ nofun) (carried.solid passes)
  have valid : ValidPath (widen path attr) := by
    have same : ValidPath (newPath .asPath path true) := validPath_newPath carried.writable nofun
    exact ⟨same.counted, same.writable⟩
  refine ⟨rewrites, alone, found, rfl, valid, fun as4 listed => (nomatch alone.symm.trans listed), ?_⟩
  rw [alone]
  exact .alone

/-- An AS can be put in front of a path that was made narrow. -/
theorem Narrowed.prepends {attrs after : List (Option PAttr)} (valid : ValidPath attr)
    (single : countOf .as4Path attrs ≤ 1)
    (narrowed : Narrowed attrs attr.segments after) (found : firstOf .asPath after = some held) :
    parseAs4Context held = false ∧
      ∀ asn, PrependSafe held.segments ((firstOf .as4Path after).map PAttr.segments) asn := by
  cases narrowed with
  | plain small =>
    have path : firstOf .asPath (putAttr attrs (newPath .asPath attr.segments false)) =
        some (newPath .asPath attr.segments false) :=
      firstOf_putAttr rfl
    rw [firstOf_removeAttrType_other (by decide), path] at found
    obtain rfl := Option.some.inj found
    rw [firstOf_removeAttrType (countOf_putAttr single)]
    exact ⟨rfl, fun asn as4 listed => nomatch listed⟩
  | @shadowed start suffix inside small cut =>
    obtain ⟨path, listed⟩ := @firstOf_putPaths (narrowSegments attr.segments) suffix attrs
    obtain rfl := Option.some.inj (path.symm.trans found)
    rw [listed]
    refine ⟨rfl, fun asn as4 same => .inl ?_⟩
    obtain rfl : suffix = as4 := Option.some.inj same
    obtain ⟨-, -, asns, -⟩ := suffixSegments_resplit valid.writable (Nat.zero_le start) cut
    rw [Nat.sub_zero] at asns
    have narrow : pathAsns (newPath .asPath (narrowSegments attr.segments) false).segments =
        (pathAsns attr.segments).map narrowAsn :=
      pathAsns_narrow
    have place : ((pathAsns attr.segments).map narrowAsn).length - (pathAsns suffix).length = start := by
      rw [asns, List.length_map, List.length_drop]
      omega
    rw [narrow, place, asns]
    exact suffixMatches_narrow (pathAsns attr.segments)

/-- For a session with narrow AS numbers the path gets a shadow when it needs one. -/
theorem downgradeAsPath_rewrites (found : firstOf .asPath update.attrs = some attr)
    (width : parseAs4Context attr = true) (single : countOf .as4Path update.attrs ≤ 1)
    (passes : AllPassable isIbgp update.attrs) (yields : Work.Yields (updateDowngradeAsPath update) after) :
    ValidPath attr ∧ Rewrites isIbgp [.asPath, .as4Path] update after ∧
      ∃ held path, Carried false after.attrs held path ∧ hops path = hops attr.segments ∧
        ∀ asn, PrependSafe held.segments ((firstOf .as4Path after.attrs).map PAttr.segments) asn := by
  obtain ⟨valid, attrs, narrowed, rfl⟩ := downgradeAsPath_yields found width yields
  obtain ⟨held, stored, fine, -, shadows, -, path, restores, resplit⟩ := narrowed.restores valid single
  have solid := (passes attr (mem_of_firstOf found)).solid
  obtain ⟨narrow, safe⟩ := narrowed.prepends valid single stored
  refine ⟨valid, ?_, held, path, ⟨stored, narrow, fine, shadows, restores⟩, resplit.hops.symm, safe⟩
  cases narrowed with
  | plain small =>
    have path : Passable isIbgp (newPath .asPath attr.segments false) := passable_path solid
    have first : Rewrites isIbgp [.asPath, .as4Path] update _ := .put (List.mem_cons_self ..) path
    exact first.remove (List.mem_cons_of_mem _ (List.mem_cons_self ..))
  | shadowed inside small cut => exact rewrites_putPaths solid.narrow (solid.suffix (Nat.zero_le _) cut)

/-- The AS that is put in front is in front of what is restored. -/
theorem prependAsn_rewrites (carried : Carried wide update.attrs held path)
    (alone : wide = true → firstOf .as4Path update.attrs = none)
    (safe : PrependSafe held.segments ((firstOf .as4Path update.attrs).map PAttr.segments) asn)
    (passes : AllPassable isIbgp update.attrs) (yields : Work.Yields (updatePrependAsn asn wide update) after) :
    Rewrites isIbgp [.asPath, .as4Path] update after ∧ (wide = true → firstOf .as4Path after.attrs = none) ∧
      ∃ longer more, Carried wide after.attrs longer more ∧ hops more = .one asn :: hops path := by
  have solid := (passes held (mem_of_firstOf carried.found)).solid
  by_cases fits : wide = true ∨ ¬ 65535 < asn
  · obtain rfl := yields.unique (prependAsn_gives carried.found carried.width carried.valid alone fits)
    obtain ⟨more, restores, same⟩ := carried.restores.prepend_small carried.valid.writable safe
    have found : firstOf .asPath (putAttr update.attrs (newPath .asPath (prepended held.segments asn) wide)) =
        some (newPath .asPath (prepended held.segments asn) wide) := firstOf_putAttr rfl
    have shadow : firstOf .as4Path (putAttr update.attrs (newPath .asPath (prepended held.segments asn) wide)) =
        firstOf .as4Path update.attrs := firstOf_putAttr_other .asPath rfl nofun
    have valid : ValidPath (newPath .asPath (prepended held.segments asn) wide) :=
      validPath_newPath (writable_prepended carried.valid.writable) nofun
    refine ⟨.put (List.mem_cons_self ..) (passable_path solid.prepended), fun wide => shadow.trans (alone wide), ?_⟩
    exact ⟨_, more, ⟨found, rfl, valid, shadow ▸ carried.shadows, shadow ▸ restores⟩, same⟩
  · obtain ⟨narrow, large⟩ := not_or.mp fits
    obtain rfl := Bool.eq_false_iff.mpr narrow
    have large := Decidable.not_not.mp large
    have same := (carried.restores.prepend_wide large).mpr safe
    have uncut := carried.restores.uncut carried.valid.writable large safe
    have shadows : ∀ as4, update.findAttr .as4Path = some as4 → ValidPath as4 := carried.shadows
    obtain rfl := yields.unique
      (prependAsn_shadow carried.found carried.width carried.valid shadows carried.restores large uncut)
    obtain ⟨found, listed⟩ := @firstOf_putPaths (prepended held.segments asTrans)
      (prependedShadow held.segments asn update.shadow) update.attrs
    have writable : Writable (prependedShadow held.segments asn update.shadow) := by
      refine writable_prependedShadow carried.valid.writable fun as4 same => ?_
      obtain ⟨shadow, stored, rfl⟩ := Option.map_eq_some_iff.mp same
      exact (carried.shadows shadow stored).writable
    have longer : Solid (prependedShadow held.segments asn update.shadow) := solid.prependedShadow (solid_shadow passes)
    refine ⟨rewrites_putPaths solid.prepended longer, nofun, _, _, ⟨found, rfl, ?_, ?_, ?_⟩, same⟩
    · exact validPath_newPath (writable_prepended carried.valid.writable) nofun
    · intro as4 stored
      obtain rfl := Option.some.inj (listed.symm.trans stored)
      exact validPath_newPath writable fun _ => rfl
    · rw [listed]
      exact restores_prependedShadow carried.restores.shadow_short

/-- One of the two conversions of the AS path. -/
def convertPath (wide : Bool) : UpdateMsg → Work UpdateMsg :=
  if wide then updateRestoreAsPath else updateDowngradeAsPath

/-- The conversion for a session keeps the path that is restored. A message for a session with narrow AS numbers has a
wide path alone. -/
theorem convertPath_rewrites (done : (convertPath wide update).outcome = .ok after)
    (found : firstOf .asPath update.attrs = some attr) (single : countOf .as4Path update.attrs ≤ 1)
    (narrow : wide = false → parseAs4Context attr = true ∧ firstOf .as4Path update.attrs = none)
    (passes : AllPassable isIbgp update.attrs) :
    Rewrites isIbgp [.asPath, .as4Path] update after ∧ (wide = true → firstOf .as4Path after.attrs = none) ∧
      ∃ path held same, Carried (parseAs4Context attr) update.attrs attr path ∧ Carried wide after.attrs held same ∧
        hops same = hops path ∧ ∀ asn,
          PrependSafe held.segments ((firstOf .as4Path after.attrs).map PAttr.segments) asn := by
  cases wide with
  | true =>
    have yields := Work.Yields.ofOutcome done
    obtain ⟨path, carried⟩ := restoreAsPath_carried found yields
    obtain ⟨rewrites, alone, restored⟩ := restoreAsPath_rewrites carried single passes yields
    refine ⟨rewrites, fun _ => alone, path, _, path, carried, restored, rfl, fun asn as4 listed => ?_⟩
    rw [alone] at listed
    cases listed
  | false =>
    obtain ⟨width, alone⟩ := narrow rfl
    obtain ⟨valid, rewrites, held, path, carried, same, safe⟩ :=
      downgradeAsPath_rewrites found width single passes (Work.Yields.ofOutcome done)
    refine ⟨rewrites, nofun, attr.segments, held, path, ⟨found, rfl, valid, ?_, ?_⟩, carried, same, safe⟩
    · intro as4 listed
      cases alone.symm.trans listed
    · rw [alone]
      exact .alone

/-- The hops that a session puts in front of a path. -/
def Fsm.ownHops (fsm : Fsm) : List Hop := if fsm.isIbgp then [] else [.one fsm.params.config.localAsn]

/-- The last step for a session: an external peer gets the own AS in front. -/
def Fsm.prepends (fsm : Fsm) (update : UpdateMsg) : Work UpdateMsg :=
  if fsm.isIbgp then pure update else updatePrependAsn fsm.params.config.localAsn fsm.peer4byteAsn update

/-- Prepending puts the own AS in front of the restored path. -/
theorem prepends_rewrites {fsm : Fsm} (done : (fsm.prepends update).outcome = .ok after)
    (carried : Carried fsm.peer4byteAsn update.attrs held path)
    (alone : fsm.peer4byteAsn = true → firstOf .as4Path update.attrs = none)
    (safe : ∀ asn, PrependSafe held.segments ((firstOf .as4Path update.attrs).map PAttr.segments) asn)
    (passes : AllPassable isIbgp update.attrs) :
    Rewrites isIbgp [.asPath, .as4Path] update after ∧ (fsm.peer4byteAsn = true → firstOf .as4Path after.attrs = none) ∧
      ∃ longer more, Carried fsm.peer4byteAsn after.attrs longer more ∧ hops more = fsm.ownHops ++ hops path := by
  rw [Fsm.prepends] at done
  rw [Fsm.ownHops]
  split at done
  case isTrue internal =>
    obtain rfl := Work.yields_pure (.ofOutcome done)
    exact ⟨.refl, alone, held, path, carried, by rw [if_pos internal]; rfl⟩
  case isFalse external =>
    obtain ⟨rewrites, alone, longer, more, carried, same⟩ :=
      prependAsn_rewrites carried alone (safe _) passes (.ofOutcome done)
    exact ⟨rewrites, alone, longer, more, carried, by rw [if_neg external, same]; rfl⟩

end Steps

end Libbgp
