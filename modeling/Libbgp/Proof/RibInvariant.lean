import Libbgp.Construction.RibWalk
import Libbgp.Proof.LpmIndex

namespace Libbgp

open Library RouteEntry

namespace RibImpl

variable {family : AddrFamily} {rib after : RibImpl family} {entry : RouteEntry family.width}
  {routes : Hashmap (RouteEntry family.width)}

/-- The entries that are linked in the route map. -/
def linked (rib : RibImpl family) : Set (RouteEntry family.width) :=
  {entry | entry ∈ rib.routes.entries}

/-- Both indexes describe the linked entries. Two entries may still have the same source and prefix,
as in the middle of a replacement. -/
structure Consistent (rib : RibImpl family) : Prop where
  wf : Hashmap.WellFormed routeHash rib.routes
  stamps : UniqueKeys stamp rib.routes.entries
  bounded : ∀ entry ∈ rib.linked, entry.stamp < rib.nextStamp
  valid : LpmIndex.Valid rib.linked
  sources : rib.sources.Indexes rib.linked
  lpm : rib.lpm.Indexes rib.linked

/-- The table is a finite map: every source and prefix is stored once. -/
structure Invariant (rib : RibImpl family) : Prop extends Consistent rib where
  unique : UniqueKeys (fun entry => (entry.source, entry.pfx)) rib.routes.entries

/-- Two tables that agree in every content; capacities and chain orders may differ. -/
structure SameContents (before after : RibImpl family) : Prop where
  routes : after.routes.entries.Perm before.routes.entries
  sources : ∀ source, after.sources.listing source = before.sources.listing source
  groups : ∀ net, after.lpm.listing net = before.lpm.listing net
  best : ∀ net, after.lpm.bestAt net = before.lpm.bestAt net
  tree : after.lpm.tree = before.lpm.tree

theorem SameContents.refl (rib : RibImpl family) : SameContents rib rib :=
  ⟨List.Perm.refl _, fun _ => rfl, fun _ => rfl, fun _ => rfl, rfl⟩

theorem SameContents.linked_eq (same : SameContents rib after) : after.linked = rib.linked := by
  ext entry
  exact same.routes.mem_iff

theorem init_linked : (init family).linked = ∅ := by simp [linked, init]

/-- A new table satisfies the invariant. -/
theorem init_invariant : Invariant (init family) where
  wf := Hashmap.init_wellFormed
  stamps := by simp [init, UniqueKeys]
  bounded entry member := by simp [linked, init] at member
  valid entry member := by simp [linked, init] at member
  sources := by
    rw [init_linked]
    exact SourceIndex.init_indexes
  lpm := by
    rw [init_linked]
    exact LpmIndex.init_indexes
  unique := by simp [init, UniqueKeys]

/-- An entry is found by its address in the chain of its hash. -/
theorem find_same (wf : Hashmap.WellFormed routeHash routes) (stamps : UniqueKeys stamp routes.entries)
    (member : entry ∈ routes.entries) : (routes.moduloChain (routeHash entry)).find? entry.same = some entry := by
  rcases search : (routes.moduloChain (routeHash entry)).find? entry.same with _ | found
  · simpa [same] using List.find?_eq_none.mp search entry (wf.mem_moduloChain member)
  · have sameStamp : entry.stamp = found.stamp := by simpa [same] using List.find?_some search
    have foundIn := Hashmap.mem_entries_of_mem_moduloChain (List.mem_of_find?_eq_some search)
    rw [stamps.eq_of_key member foundIn sameStamp]

namespace Consistent

theorem stamped (consistent : Consistent rib) : Stamped rib.linked :=
  fun _ firstIn _ secondIn same => consistent.stamps.eq_of_key firstIn secondIn same

/-- Unlinking takes exactly one entry out of the route map. -/
theorem unlink_spec (consistent : Consistent rib) (member : entry ∈ rib.linked) :
    Hashmap.WellFormed routeHash (rib.entryUnlink entry).routes ∧
      rib.routes.entries.Perm (entry :: (rib.entryUnlink entry).routes.entries) :=
  Hashmap.unlink_spec consistent.wf (find_same consistent.wf consistent.stamps member)

end Consistent

/-- What the other entries are after one has been split off. -/
theorem linked_diff (distinct : rib.routes.entries.Nodup)
    (split : rib.routes.entries.Perm (entry :: after.routes.entries)) : after.linked = rib.linked \ {entry} := by
  have whole := split.nodup_iff.mp distinct
  ext other
  rw [Set.mem_sdiff, Set.mem_singleton_iff]
  change other ∈ after.routes.entries ↔ other ∈ rib.routes.entries ∧ other ≠ entry
  rw [split.mem_iff, List.mem_cons]
  constructor
  · intro inside
    exact ⟨.inr inside, fun same => (List.nodup_cons.mp whole).1 (same ▸ inside)⟩
  · rintro ⟨same | inside, different⟩
    · exact absurd same different
    · exact inside

theorem linked_insert (joined : after.routes.entries.Perm (entry :: rib.routes.entries)) :
    after.linked = Insert.insert entry rib.linked := by
  ext other
  rw [Set.mem_insert_iff]
  change other ∈ after.routes.entries ↔ other = entry ∨ other ∈ rib.routes.entries
  rw [joined.mem_iff, List.mem_cons]

/-- The result of taking one linked entry out of the table. -/
structure Detached (rib after : RibImpl family) (entry : RouteEntry family.width) : Prop where
  consistent : Consistent after
  split : rib.routes.entries.Perm (entry :: after.routes.entries)
  linked_eq : after.linked = rib.linked \ {entry}
  nextStamp : after.nextStamp = rib.nextStamp
  best : ∃ remaining : List (RouteEntry family.width), remaining.Nodup ∧
    (∀ other, other ∈ remaining ↔
      (other ∈ rib.linked ∧ LpmIndex.network other = LpmIndex.network entry) ∧ other ≠ entry) ∧
    LpmIndex.Left rib.lpm after.lpm entry remaining

/-- Unlinking an entry and removing it from both indexes gives a consistent table again. -/
theorem detached_of_parts (consistent : Consistent rib) (member : entry ∈ rib.linked)
    (wf : Hashmap.WellFormed routeHash routes) (split : rib.routes.entries.Perm (entry :: routes.entries))
    (alloc : Allocator) :
    ∃ lpm, rib.lpm.remove entry alloc = (lpm, alloc) ∧
      Detached rib { rib with routes := routes, sources := rib.sources.remove entry, lpm := lpm } entry := by
  obtain ⟨lpm, remaining, removed, indexes, distinct, members, left⟩ :=
    LpmIndex.remove_spec consistent.lpm consistent.valid consistent.stamped member alloc
  have others : RibImpl.linked { rib with routes := routes, sources := rib.sources.remove entry, lpm := lpm } =
      rib.linked \ {entry} := linked_diff consistent.stamps.nodup split
  refine ⟨lpm, removed, ⟨wf, ?_, ?_, ?_, ?_, ?_⟩, split, others, rfl, remaining, distinct, members, left⟩
  · exact (UniqueKeys.cons_iff.mp (consistent.stamps.perm split)).2
  · rw [others]
    exact fun other inside => consistent.bounded other inside.1
  · rw [others]
    exact fun other inside => consistent.valid other inside.1
  · rw [others]
    exact SourceIndex.remove_indexes consistent.sources consistent.stamped member
  · rw [others]
    exact indexes

theorem detachEntry_spec (consistent : Consistent rib) (member : entry ∈ rib.linked) (alloc : Allocator) :
    ∃ after, rib.detachEntry entry alloc = (after, alloc) ∧ Detached rib after entry := by
  obtain ⟨wf, split⟩ := consistent.unlink_spec member
  obtain ⟨lpm, removed, detached⟩ := detached_of_parts consistent member wf split alloc
  refine ⟨_, ?_, detached⟩
  unfold detachEntry indexRemove
  simp only [entryUnlink, removed]

/-- The result of linking one new entry into the table. -/
structure Attached (rib after : RibImpl family) (entry : RouteEntry family.width) : Prop where
  consistent : Consistent after
  joined : after.routes.entries.Perm (entry :: rib.routes.entries)
  linked_eq : after.linked = Insert.insert entry rib.linked
  best : LpmIndex.Joined rib.lpm after.lpm entry

/-- A failed link: the table has the contents from before and is consistent. -/
structure Refused (rib after : RibImpl family) : Prop where
  consistent : Consistent after
  same : SameContents rib after

/-- Indexing a freshly linked entry succeeds, or everything is undone. -/
theorem indexAdd_cases (consistent : Consistent rib) (entry : RouteEntry family.width)
    (fits : entry.pfx.len ≤ family.width) (fresh : entry.stamp = rib.nextStamp)
    (wf : Hashmap.WellFormed routeHash routes) (joined : routes.entries.Perm (entry :: rib.routes.entries))
    (alloc : Allocator) :
    (∃ after rest, indexAdd { rib with routes := routes, nextStamp := rib.nextStamp + 1 } entry alloc =
      (.ok, after, rest) ∧ alloc.Spent rest ∧ Attached rib after entry) ∨
    (∃ after rest, indexAdd { rib with routes := routes, nextStamp := rib.nextStamp + 1 } entry alloc =
      (.nomem, after, rest) ∧ alloc.Refused rest ∧ Refused rib after) := by
  have absent : entry ∉ rib.linked := fun member => by
    have below := consistent.bounded entry member
    omega
  have unmatched : ∀ held ∈ rib.linked, entry.same held = false := by
    intro held member
    have below := consistent.bounded held member
    simp only [same, beq_eq_false_iff_ne]
    omega
  have stamps : UniqueKeys stamp routes.entries := by
    refine (UniqueKeys.cons_iff.mpr ⟨fun held member same => ?_, consistent.stamps⟩).perm joined.symm
    have below := consistent.bounded held member
    omega
  have bounded : ∀ held ∈ Insert.insert entry rib.linked, held.stamp < rib.nextStamp + 1 := by
    rintro held (rfl | member)
    · omega
    · exact Nat.lt_succ_of_lt (consistent.bounded held member)
  have valid : LpmIndex.Valid (Insert.insert entry rib.linked) := by
    rintro held (rfl | member)
    · exact fits
    · exact consistent.valid held member
  -- The undo unlinks the entry that was linked last.
  have undone : Hashmap.WellFormed routeHash (routes.unlink (routeHash entry) entry.same) ∧
      (routes.unlink (routeHash entry) entry.same).entries.Perm rib.routes.entries := by
    have member : entry ∈ routes.entries := joined.mem_iff.mpr (by simp)
    obtain ⟨unlinkedWf, split⟩ := Hashmap.unlink_spec wf (find_same wf stamps member)
    exact ⟨unlinkedWf, (List.Perm.cons_inv (split.symm.trans joined))⟩
  have restored : ∀ after : RibImpl family, after.routes = routes.unlink (routeHash entry) entry.same →
      after.nextStamp = rib.nextStamp + 1 →
      after.sources.Indexes rib.linked → after.lpm.Indexes rib.linked →
      (∀ source, after.sources.listing source = rib.sources.listing source) →
      (∀ net, after.lpm.find net = rib.lpm.find net) → after.lpm.tree = rib.lpm.tree →
      Refused rib after := by
    intro after sameRoutes stamp sourceIndexes lpmIndexes listings groups tree
    have contents : after.routes.entries.Perm rib.routes.entries := sameRoutes ▸ undone.2
    have sameLinked : after.linked = rib.linked := by
      ext other
      exact contents.mem_iff
    refine ⟨⟨sameRoutes ▸ undone.1, consistent.stamps.perm contents.symm, ?_, ?_, ?_, ?_⟩,
      ⟨contents, listings, fun net => ?_, fun net => ?_, tree⟩⟩
    · rw [sameLinked, stamp]
      exact fun other member => Nat.lt_succ_of_lt (consistent.bounded other member)
    · rw [sameLinked]
      exact consistent.valid
    · rw [sameLinked]
      exact sourceIndexes
    · rw [sameLinked]
      exact lpmIndexes
    · rw [LpmIndex.listing, groups]
      rfl
    · rw [LpmIndex.bestAt, groups]
      rfl
  unfold indexAdd
  rcases SourceIndex.add_cases consistent.sources absent alloc with
    ⟨sources, rest, added, spent, sourceIndexes, appended⟩ | ⟨sources, rest, failed, refused, sourceIndexes, same⟩
  · simp only [added]
    rcases LpmIndex.add_cases consistent.lpm consistent.valid absent fits rest with
      ⟨lpm, left, joinedLpm, more, lpmIndexes, best⟩ | ⟨lpm, left, failed, more, lpmIndexes, groups, tree⟩
    · simp only [joinedLpm]
      refine .inl ⟨_, left, rfl, spent.trans more, ?_⟩
      have everything : RibImpl.linked { rib with
          routes := routes, sources := sources, lpm := lpm, nextStamp := rib.nextStamp + 1 } =
          Insert.insert entry rib.linked := linked_insert joined
      refine ⟨⟨wf, stamps, ?_, ?_, ?_, ?_⟩, joined, everything, best⟩
      · rw [everything]
        exact bounded
      · rw [everything]
        exact valid
      · rw [everything]
        exact sourceIndexes
      · rw [everything]
        exact lpmIndexes
    · simp only [failed]
      refine .inr ⟨_, left, rfl, spent.trans_refused more, restored _ rfl rfl ?_ lpmIndexes ?_ groups tree⟩
      · have back := SourceIndex.remove_indexes sourceIndexes
          (fun first firstIn second secondIn equal => ?_) (Set.mem_insert entry rib.linked)
        · rwa [Set.insert_sdiff_of_mem _ (Set.mem_singleton entry), Set.sdiff_singleton_eq_self absent] at back
        · have inRoutes : ∀ held ∈ Insert.insert entry rib.linked, held ∈ routes.entries := by
            intro held member
            exact joined.mem_iff.mpr (List.mem_cons.mpr member)
          exact stamps.eq_of_key (inRoutes first firstIn) (inRoutes second secondIn) equal
      · exact SourceIndex.listing_remove_appended consistent.sources unmatched sourceIndexes.keyed appended
  · simp only [failed]
    exact .inr ⟨_, rest, rfl, refused, restored _ rfl rfl sourceIndexes consistent.lpm same (fun _ => rfl) rfl⟩

/-- Linking a new route succeeds, or the table keeps its contents. -/
theorem linkNew_cases (consistent : Consistent rib) (copy : Route family.width)
    (fits : copy.pfx.len ≤ family.width) (alloc : Allocator) :
    (∃ after rest, rib.linkNew copy alloc = (.ok, after, rest) ∧ alloc.Spent rest ∧
      Attached rib after ⟨rib.nextStamp, copy⟩) ∨
    (∃ after rest, rib.linkNew copy alloc = (.nomem, after, rest) ∧ alloc.Refused rest ∧ Refused rib after) := by
  unfold linkNew
  rcases Hashmap.insert_cases consistent.wf ⟨rib.nextStamp, copy⟩ alloc with
    ⟨routes, rest, inserted, spent, wf, joined⟩ | ⟨routes, rest, failed, refused, wf, contents⟩
  · have stamps : UniqueKeys stamp routes.entries := by
      refine (UniqueKeys.cons_iff.mpr ⟨fun held member same => ?_, consistent.stamps⟩).perm joined.symm
      have below := consistent.bounded held member
      simp only at same
      omega
    have located : entryFindValue { rib with routes := routes, nextStamp := rib.nextStamp + 1 }
        ⟨rib.nextStamp, copy⟩ = some ⟨rib.nextStamp, copy⟩ := by
      have member : (⟨rib.nextStamp, copy⟩ : RouteEntry family.width) ∈ routes.entries :=
        joined.mem_iff.mpr (by simp)
      unfold entryFindValue
      rcases search : (routes.moduloChain (routeHash ⟨rib.nextStamp, copy⟩)).find? (fun held =>
        routeHash held == routeHash ⟨rib.nextStamp, copy⟩ && held.same ⟨rib.nextStamp, copy⟩ &&
          held.pfx == pfx ⟨rib.nextStamp, copy⟩) with _ | found
      · simpa [same] using List.find?_eq_none.mp search _ (wf.mem_moduloChain member)
      · have tested := List.find?_some search
        simp only [Bool.and_eq_true, same, beq_iff_eq] at tested
        have foundIn := Hashmap.mem_entries_of_mem_moduloChain (List.mem_of_find?_eq_some search)
        rw [stamps.eq_of_key foundIn member tested.1.2]
    simp only [inserted, located]
    rcases indexAdd_cases consistent ⟨rib.nextStamp, copy⟩ fits rfl wf joined rest with
      ⟨after, left, added, more, attached⟩ | ⟨after, left, undone, more, same⟩
    · exact .inl ⟨after, left, added, spent.trans more, attached⟩
    · exact .inr ⟨after, left, undone, spent.trans_refused more, same⟩
  · simp only [failed]
    have sameLinked : RibImpl.linked { rib with routes := routes } = rib.linked := by
      ext other
      exact contents.mem_iff
    refine .inr ⟨_, rest, rfl, refused, ⟨wf, consistent.stamps.perm contents.symm, ?_, ?_, ?_, ?_⟩,
      ⟨contents, fun _ => rfl, fun _ => rfl, fun _ => rfl, rfl⟩⟩
    · rw [sameLinked]
      exact consistent.bounded
    · rw [sameLinked]
      exact consistent.valid
    · rw [sameLinked]
      exact consistent.sources
    · rw [sameLinked]
      exact consistent.lpm

section Find

variable {source : RouterId} {pfx : Prefix family.width}

theorem find_some (found : rib.find source pfx = some entry) :
    entry ∈ rib.linked ∧ entry.source = source ∧ entry.pfx = pfx := by
  have tested := List.find?_some found
  simp only [routeEq, Bool.and_eq_true, beq_iff_eq] at tested
  exact ⟨Hashmap.mem_entries_of_mem_moduloChain (List.mem_of_find?_eq_some found), tested.2, tested.1.2⟩

/-- A search fails exactly when no entry is linked for it. -/
theorem Consistent.find_eq_none_iff (consistent : Consistent rib) :
    rib.find source pfx = none ↔ ∀ entry ∈ rib.linked, ¬ (entry.source = source ∧ entry.pfx = pfx) := by
  unfold find
  rw [List.find?_eq_none]
  constructor
  · rintro missed entry member ⟨rfl, rfl⟩
    have := missed entry (consistent.wf.mem_moduloChain member)
    simp [routeEq, routeHash] at this
  · intro absent entry inChain
    have member := Hashmap.mem_entries_of_mem_moduloChain inChain
    have different := absent entry member
    simp only [routeEq, Bool.and_eq_true, beq_iff_eq, not_and]
    rintro ⟨-, samePrefix⟩ sameSource
    exact different ⟨sameSource, samePrefix⟩

/-- The search by source and prefix finds exactly the stored entry. -/
theorem Invariant.find_eq_some_iff (invariant : Invariant rib) :
    rib.find source pfx = some entry ↔ entry ∈ rib.linked ∧ entry.source = source ∧ entry.pfx = pfx := by
  refine ⟨find_some, ?_⟩
  rintro ⟨member, rfl, rfl⟩
  rcases search : rib.find entry.source entry.pfx with _ | found
  · exact absurd ⟨rfl, rfl⟩ (invariant.toConsistent.find_eq_none_iff.mp search entry member)
  · obtain ⟨foundIn, sameSource, samePrefix⟩ := find_some search
    rw [invariant.unique.eq_of_key foundIn member (by rw [sameSource, samePrefix])]

end Find

end RibImpl

end Libbgp
