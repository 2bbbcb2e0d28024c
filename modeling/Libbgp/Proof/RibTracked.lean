import Libbgp.Construction.Journal
import Libbgp.Proof.RibBestRun

namespace Libbgp

open Library

namespace RibImpl

variable {family : AddrFamily} {rib after : RibImpl family} {entry : RouteEntry family.width}
  {route : Route family.width} {source : RouterId} {pfx : Prefix family.width}

section Map

/-- The route of a peer is the one in its linked entry. -/
theorem Invariant.routeAt_eq_some_iff (invariant : Invariant rib) :
    rib.routeAt source pfx = some route ↔
      ∃ entry ∈ rib.linked, entry.source = source ∧ entry.pfx = pfx ∧ entry.route = route := by
  rw [routeAt, Option.map_eq_some_iff]
  constructor
  · rintro ⟨entry, found, same⟩
    obtain ⟨member, sameSource, samePrefix⟩ := find_some found
    exact ⟨entry, member, sameSource, samePrefix, same⟩
  · rintro ⟨entry, member, sameSource, samePrefix, same⟩
    exact ⟨entry, invariant.find_eq_some_iff.mpr ⟨member, sameSource, samePrefix⟩, same⟩

/-- A stored route carries its own key and a valid length. -/
theorem Invariant.routeAt_key (invariant : Invariant rib) (found : rib.routeAt source pfx = some route) :
    route.sourceRouterId = source ∧ route.pfx = pfx ∧ route.pfx.len ≤ family.width := by
  obtain ⟨entry, member, sameSource, samePrefix, rfl⟩ := invariant.routeAt_eq_some_iff.mp found
  exact ⟨sameSource, samePrefix, invariant.valid entry member⟩

theorem routeAt_eq_none_iff : rib.routeAt source pfx = none ↔ rib.find source pfx = none := by
  rw [routeAt, Option.map_eq_none_iff]

theorem SameContents.routeAt_eq (same : SameContents rib after) (invariant : Invariant rib)
    (afterInvariant : Invariant after) : after.routeAt = rib.routeAt := by
  funext source pfx
  refine routeAt_congr invariant afterInvariant fun entry _ _ => ?_
  rw [same.linked_eq]

/-- A stored route replaces the one of its source. -/
theorem Stored.routeAt_own (stored : Stored rib after route) (invariant : Invariant rib) :
    after.routeAt route.sourceRouterId = Function.update (rib.routeAt route.sourceRouterId) route.pfx
      (some (cloneOf rib.nextUpdateId route)) := by
  funext pfx
  by_cases same : pfx = route.pfx
  · subst same
    rw [Function.update_self, stored.invariant.routeAt_eq_some_iff]
    exact ⟨rib.newEntry route, (stored.linked_iff _).mpr (.inl rfl), rfl, rfl, rfl⟩
  · rw [Function.update_of_ne same]
    refine routeAt_congr invariant stored.invariant fun entry _ samePrefix => ?_
    rw [stored.linked_iff]
    constructor
    · rintro (rfl | ⟨member, -⟩)
      · exact absurd samePrefix.symm same
      · exact member
    · intro member
      exact .inr ⟨member, fun key => same (samePrefix.symm.trans key.2)⟩

/-- A stored route leaves the routes of other peers. -/
theorem Stored.routeAt_other (stored : Stored rib after route) (invariant : Invariant rib)
    (other : source ≠ route.sourceRouterId) : after.routeAt source = rib.routeAt source := by
  funext pfx
  refine routeAt_congr invariant stored.invariant fun entry sameSource _ => ?_
  rw [stored.linked_iff]
  constructor
  · rintro (rfl | ⟨member, -⟩)
    · exact absurd sameSource.symm other
    · exact member
  · intro member
    exact .inr ⟨member, fun key => other (sameSource.symm.trans key.1)⟩

/-- A detached entry leaves no route of its source. -/
theorem Detached.routeAt_own (detached : Detached rib after entry) (invariant : Invariant rib)
    (member : entry ∈ rib.linked) :
    after.routeAt entry.source = Function.update (rib.routeAt entry.source) entry.pfx none := by
  have afterInvariant := invariant.detached detached
  funext pfx
  by_cases same : pfx = entry.pfx
  · subst same
    rw [Function.update_self, routeAt_eq_none_iff, afterInvariant.toConsistent.find_eq_none_iff]
    rintro other inside ⟨sameSource, samePrefix⟩
    rw [detached.linked_eq] at inside
    exact inside.2 (invariant.unique.eq_of_key inside.1 member (Prod.ext sameSource samePrefix))
  · rw [Function.update_of_ne same]
    refine routeAt_congr invariant afterInvariant fun other _ samePrefix => ?_
    rw [detached.linked_eq, Set.mem_sdiff, Set.mem_singleton_iff]
    refine ⟨And.left, fun inside => ⟨inside, ?_⟩⟩
    rintro rfl
    exact same samePrefix.symm

theorem Detached.routeAt_other (detached : Detached rib after entry) (invariant : Invariant rib)
    (other : source ≠ entry.source) : after.routeAt source = rib.routeAt source := by
  funext pfx
  refine routeAt_congr invariant (invariant.detached detached) fun held sameSource _ => ?_
  rw [detached.linked_eq, Set.mem_sdiff, Set.mem_singleton_iff]
  refine ⟨And.left, fun inside => ⟨inside, ?_⟩⟩
  rintro rfl
  exact other sameSource.symm

/-- An attached entry is the route of its source. -/
theorem Attached.routeAt_own (attached : Attached rib after entry) (invariant : Invariant rib)
    (afterInvariant : Invariant after) :
    after.routeAt entry.source = Function.update (rib.routeAt entry.source) entry.pfx (some entry.route) := by
  funext pfx
  by_cases same : pfx = entry.pfx
  · subst same
    rw [Function.update_self, afterInvariant.routeAt_eq_some_iff]
    refine ⟨entry, ?_, rfl, rfl, rfl⟩
    rw [attached.linked_eq]
    exact Set.mem_insert _ _
  · rw [Function.update_of_ne same]
    refine routeAt_congr invariant afterInvariant fun other _ samePrefix => ?_
    rw [attached.linked_eq, Set.mem_insert_iff]
    refine ⟨?_, .inr⟩
    rintro (rfl | inside)
    · exact absurd samePrefix.symm same
    · exact inside

theorem Attached.routeAt_other (attached : Attached rib after entry) (invariant : Invariant rib)
    (afterInvariant : Invariant after) (other : source ≠ entry.source) :
    after.routeAt source = rib.routeAt source := by
  funext pfx
  refine routeAt_congr invariant afterInvariant fun held sameSource _ => ?_
  rw [attached.linked_eq, Set.mem_insert_iff]
  refine ⟨?_, .inr⟩
  rintro (rfl | inside)
  · exact absurd sameSource.symm other
  · exact inside

end Map

section Tracked

/-- A change of best is reported, or memory is refused. -/
theorem reportBest_cases (kind : ChangeKind) (best : Route family.width) (saved : Option (Route family.width))
    (updateId : UInt64) (rib : RibImpl family) (alloc : Allocator) :
    (∃ rest, reportBest kind best saved updateId rib alloc = ⟨.ok, ⟨kind, some best⟩, saved, updateId, rib, rest⟩ ∧
      alloc.Spent rest) ∨
    (∃ rest, reportBest kind best saved updateId rib alloc =
      ⟨.nomem, ⟨.noBestChange, none⟩, saved, updateId, rib, rest⟩ ∧ alloc.Refused rest) := by
  unfold reportBest
  rcases snapshotClone_cases best alloc with ⟨rest, copied, spent⟩ | ⟨rest, failed, refused⟩
  · rw [copied]
    exact .inl ⟨rest, rfl, spent⟩
  · rw [failed]
    exact .inr ⟨rest, rfl, refused⟩

/-- A stored route makes some route the best of its prefix. -/
theorem Stored.exists_best (stored : Stored rib after route) : ∃ best, after.bestExact route.pfx = some best := by
  rcases found : after.bestExact route.pfx with _ | best
  · rw [bestExact_eq_none_iff stored.invariant] at found
    have member : rib.newEntry route ∈ after.exact route.pfx :=
      ⟨(stored.linked_iff _).mpr (.inl rfl), rfl⟩
    rw [found] at member
    exact absurd member (Set.notMem_empty _)
  · exact ⟨best, rfl⟩

/-- What a tracked insert reports about the best route of its prefix. -/
structure InsertReport (rib after : RibImpl family) (pfx : Prefix family.width)
    (change : RibChange family.width) (best : RouteEntry family.width) : Prop where
  found : after.bestExact pfx = some best
  reported : change.best = some best.route
  unchanged : Journal.isNewBest change.kind = false → rib.bestExact pfx = some best

/-- A tracked insert is rejected, refused before or after it has changed the table, or done. -/
theorem insertTrackBest_cases (invariant : Invariant rib) (route : Route family.width) (alloc : Allocator) :
    (family.width < route.pfx.len ∧
      rib.insertTrackBest route alloc = ⟨.invalid, ⟨.noBestChange, none⟩, none, 0, rib, alloc⟩) ∨
    (∃ after rest, rib.insertTrackBest route alloc = ⟨.nomem, ⟨.noBestChange, none⟩, none, 0, after, rest⟩ ∧
      alloc.Refused rest ∧ Invariant after ∧ SameContents rib after) ∨
    (∃ after rest, rib.insertTrackBest route alloc =
      ⟨.nomem, ⟨.noBestChange, none⟩, rib.routeAt route.sourceRouterId route.pfx,
        (cloneOf rib.nextUpdateId route).updateId, after, rest⟩ ∧ alloc.Refused rest ∧ Stored rib after route) ∨
    (∃ change best after rest, rib.insertTrackBest route alloc =
      ⟨.ok, change, rib.routeAt route.sourceRouterId route.pfx,
        (cloneOf rib.nextUpdateId route).updateId, after, rest⟩ ∧ alloc.Spent rest ∧ Stored rib after route ∧
      InsertReport rib after route.pfx change best) := by
  unfold insertTrackBest
  rcases insertSaveReplaced_cases invariant route false alloc with
    ⟨err, rejected, ⟨rfl, long⟩ | ⟨-, -, impossible⟩⟩ | ⟨after, rest, failed, refused, afterInvariant, same⟩ |
      ⟨after, rest, done, spent, stored⟩
  · simp only [rejected]
    exact .inl ⟨long, trivial⟩
  · cases impossible
  · simp only [failed]
    exact .inr (.inl ⟨after, rest, rfl, refused, afterInvariant, same⟩)
  · obtain ⟨best, found⟩ := stored.exists_best
    simp only [done, found]
    rcases before : rib.bestExact route.pfx with _ | old
    · rcases reportBest_cases .newBest best.route (rib.routeAt route.sourceRouterId route.pfx)
          (cloneOf rib.nextUpdateId route).updateId after rest with
        ⟨left, reported, more⟩ | ⟨left, failed, more⟩
      · exact .inr (.inr (.inr ⟨_, best, after, left, reported, spent.trans more, stored, found, rfl,
          by simp [Journal.isNewBest]⟩))
      · exact .inr (.inr (.inl ⟨after, left, failed, spent.trans_refused more, stored⟩))
    · by_cases same : old.same best
      · simp only [same, if_true]
        refine .inr (.inr (.inr ⟨_, best, after, rest, rfl, spent, stored, found, rfl, fun _ => ?_⟩))
        -- The new entry has a fresh address, so the best entry was stored before.
        have oldIn := (bestExact_mem invariant before).1
        have stamps : old.stamp = best.stamp := by simpa [RouteEntry.same] using same
        rcases (stored.linked_iff best).mp (bestExact_mem stored.invariant found).1 with fresh | ⟨bestIn, -⟩
        · have below := invariant.bounded old oldIn
          rw [stamps, fresh] at below
          exact absurd below (Nat.lt_irrefl _)
        · rw [before, invariant.stamps.eq_of_key oldIn bestIn stamps]
      · simp only [same, Bool.false_eq_true, if_false]
        rcases reportBest_cases .replacementBest best.route (rib.routeAt route.sourceRouterId route.pfx)
            (cloneOf rib.nextUpdateId route).updateId after rest with
          ⟨left, reported, more⟩ | ⟨left, failed, more⟩
        · exact .inr (.inr (.inr ⟨_, best, after, left, reported, spent.trans more, stored, found, rfl,
            by simp [Journal.isNewBest]⟩))
        · exact .inr (.inr (.inl ⟨after, left, failed, spent.trans_refused more, stored⟩))

/-- What a tracked withdrawal reports about the best route of its prefix. -/
inductive WithdrawReport (rib after : RibImpl family) (source : RouterId) (pfx : Prefix family.width) :
    RibChange family.width → Prop
  | kept (best : Option (Route family.width)) (foreign : ∀ held, rib.bestExact pfx = some held → held.source ≠ source) :
      WithdrawReport rib after source pfx ⟨.noBestChange, best⟩
  | lost (held : RouteEntry family.width) (before : rib.bestExact pfx = some held) (own : held.source = source)
      (gone : after.bestExact pfx = none) : WithdrawReport rib after source pfx ⟨.unreachable, none⟩
  | replaced (held best : RouteEntry family.width) (before : rib.bestExact pfx = some held)
      (own : held.source = source) (found : after.bestExact pfx = some best) :
      WithdrawReport rib after source pfx ⟨.replacementBest, some best.route⟩

/-- A tracked withdrawal finds nothing, is refused after it has changed the table, or is done. -/
theorem withdrawTrackBest_cases (invariant : Invariant rib) (source : RouterId) (pfx : Prefix family.width)
    (alloc : Allocator) :
    (rib.routeAt source pfx = none ∧
      rib.withdrawTrackBest source pfx alloc = ⟨.ok, ⟨.noBestChange, none⟩, none, 0, rib, alloc⟩) ∨
    (∃ entry after, entry ∈ rib.linked ∧ entry.source = source ∧ entry.pfx = pfx ∧ Detached rib after entry ∧
      ((∃ rest, rib.withdrawTrackBest source pfx alloc =
        ⟨.nomem, ⟨.noBestChange, none⟩, some entry.route, 0, after, rest⟩ ∧ alloc.Refused rest) ∨
      (∃ change rest, rib.withdrawTrackBest source pfx alloc = ⟨.ok, change, some entry.route, 0, after, rest⟩ ∧
        alloc.Spent rest ∧ WithdrawReport rib after source pfx change))) := by
  unfold withdrawTrackBest
  rcases detach_cases invariant source pfx alloc with ⟨missing, notFound⟩ | ⟨entry, after, found, done, detached⟩
  · simp only [notFound]
    exact .inl ⟨routeAt_eq_none_iff.mpr missing, trivial⟩
  · obtain ⟨member, sameSource, samePrefix⟩ := find_some found
    refine .inr ⟨entry, after, member, sameSource, samePrefix, detached, ?_⟩
    simp only [done, Option.map_some]
    by_cases own : (rib.bestExact pfx).any fun best => best.source == source
    · obtain ⟨held, before, heldOwn⟩ := (Option.any_eq_true _ _).mp own
      have heldSource : held.source = source := by simpa using heldOwn
      simp only [own, Bool.not_true, Bool.false_eq_true, if_false]
      rcases left : after.bestExact pfx with _ | best
      · exact .inr ⟨_, alloc, rfl, .refl _, .lost held before heldSource left⟩
      · rcases reportBest_cases .replacementBest best.route (some entry.route) 0 after alloc with
          ⟨rest, reported, spent⟩ | ⟨rest, failed, refused⟩
        · exact .inr ⟨_, rest, reported, spent, .replaced held best before heldSource left⟩
        · exact .inl ⟨rest, failed, refused⟩
    · simp only [own, Bool.not_false, if_true]
      refine .inr ⟨_, alloc, rfl, .refl _, .kept _ fun held before same => own ?_⟩
      rw [before]
      simpa using same

end Tracked

end RibImpl

end Libbgp
