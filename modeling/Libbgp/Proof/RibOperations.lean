import Mathlib.Logic.Relation
import Libbgp.Proof.RibInvariant

namespace Libbgp

open Library

namespace RibImpl

variable {family : AddrFamily} {rib after : RibImpl family} {entry : RouteEntry family.width}
  {route : Route family.width}

theorem Invariant.detached (invariant : Invariant rib) (detached : Detached rib after entry) : Invariant after :=
  ⟨detached.consistent, (UniqueKeys.cons_iff.mp (invariant.unique.perm detached.split)).2⟩

theorem Invariant.refused (invariant : Invariant rib) (refused : Refused rib after) : Invariant after :=
  ⟨refused.consistent, invariant.unique.perm refused.same.routes.symm⟩

/-- A new source and prefix may be linked without breaking the map. -/
theorem Invariant.attached (invariant : Invariant rib) (attached : Attached rib after entry)
    (absent : rib.find entry.source entry.pfx = none) : Invariant after := by
  refine ⟨attached.consistent, (UniqueKeys.cons_iff.mpr ⟨?_, invariant.unique⟩).perm attached.joined.symm⟩
  intro held member same
  rw [Prod.mk.injEq] at same
  exact invariant.toConsistent.find_eq_none_iff.mp absent held member same

/-- The map keeps its contents when only the update id counter moves. -/
theorem Invariant.counter (invariant : Invariant rib) (counter : UInt64) :
    Invariant { rib with nextUpdateId := counter } :=
  ⟨⟨invariant.wf, invariant.stamps, invariant.bounded, invariant.valid, invariant.sources, invariant.lpm⟩,
    invariant.unique⟩

/-- A route is copied, or memory is refused. -/
theorem snapshotClone_cases {width : Nat} (route : Route width) (alloc : Allocator) :
    (∃ rest, snapshotClone route alloc = (.ok, rest) ∧ alloc.Spent rest) ∨
    (∃ rest, snapshotClone route alloc = (.nomem, rest) ∧ alloc.Refused rest) := by
  unfold snapshotClone
  split
  · exact .inl ⟨alloc, rfl, .refl _⟩
  · rcases alloc.request_cases with ⟨rest, granted, spent⟩ | ⟨rest, denied, refused⟩
    · rw [granted]
      exact .inl ⟨rest, rfl, spent⟩
    · rw [denied]
      exact .inr ⟨rest, rfl, refused⟩

theorem reserveOne_cases (count cap : Nat) (alloc : Allocator) :
    (∃ wide rest, reserveOne count cap alloc = (some wide, rest) ∧ alloc.Spent rest) ∨
    (∃ rest, reserveOne count cap alloc = (none, rest) ∧ alloc.Refused rest) := by
  unfold reserveOne
  split
  · exact .inl ⟨cap, alloc, rfl, .refl _⟩
  · rcases alloc.request_cases with ⟨rest, granted, spent⟩ | ⟨rest, denied, refused⟩
    · rw [granted]
      exact .inl ⟨snapCap cap, rest, rfl, spent⟩
    · rw [denied]
      exact .inr ⟨rest, rfl, refused⟩

/-- A clone fills in the defaults, or it is refused memory and only the counter may move. -/
theorem routeClone_cases (rib : RibImpl family) (fits : route.pfx.len ≤ family.width) (alloc : Allocator) :
    ∃ counter,
      (∃ rest, rib.routeClone route alloc =
        (.ok, cloneOf rib.nextUpdateId route, { rib with nextUpdateId := counter }, rest) ∧ alloc.Spent rest) ∨
      (∃ copy rest, rib.routeClone route alloc =
        (.nomem, copy, { rib with nextUpdateId := counter }, rest) ∧ alloc.Refused rest) := by
  unfold routeClone
  rw [if_neg (Nat.not_lt.mpr fits)]
  rcases alloc.request_cases with ⟨rest, granted, spent⟩ | ⟨rest, denied, refused⟩
  · simp only [granted]
    refine ⟨if route.updateId = 0 then nextId rib.nextUpdateId else rib.nextUpdateId, ?_⟩
    rcases rest.requests_cases (if route.attrs.isEmpty then 1 else 2) with
      ⟨left, more, used⟩ | ⟨left, failed, used⟩
    · exact .inl ⟨left, by rw [more], spent.trans used⟩
    · exact .inr ⟨_, left, by rw [failed], spent.trans_refused used⟩
  · simp only [denied]
    exact ⟨rib.nextUpdateId, .inr ⟨route, rest, rfl, refused⟩⟩

/-- The entry that an insert links. -/
def newEntry (rib : RibImpl family) (route : Route family.width) : RouteEntry family.width :=
  ⟨rib.nextStamp, cloneOf rib.nextUpdateId route⟩

/-- A completed insert: the new entry was linked, then an old one with its key was detached. -/
structure Stored (rib after : RibImpl family) (route : Route family.width) : Prop where
  fits : route.pfx.len ≤ family.width
  invariant : Invariant after
  linked_iff : ∀ entry, entry ∈ after.linked ↔ entry = rib.newEntry route ∨
    (entry ∈ rib.linked ∧ ¬ (entry.source = route.sourceRouterId ∧ entry.pfx = route.pfx))
  middle : ∃ middle, Attached rib middle (rib.newEntry route) ∧
    ((rib.find route.sourceRouterId route.pfx = none ∧ after = middle) ∨
      ∃ old, rib.find route.sourceRouterId route.pfx = some old ∧ Detached middle after old)

section

variable (invariant : Invariant rib)

include invariant

/-- Every insert is rejected before it touches the table, is refused memory and undone, or is stored. -/
theorem insertSaveReplaced_cases (route : Route family.width) (isPublic : Bool) (alloc : Allocator) :
    (∃ err, rib.insertSaveReplaced route isPublic alloc = (err, ⟨none, 0⟩, rib, alloc) ∧
      ((err = .invalid ∧ family.width < route.pfx.len) ∨
        (err = .existing ∧ route.sourceRouterId = 0 ∧ isPublic = true))) ∨
    (∃ after rest, rib.insertSaveReplaced route isPublic alloc = (.nomem, ⟨none, 0⟩, after, rest) ∧
      alloc.Refused rest ∧ Invariant after ∧ SameContents rib after) ∨
    (∃ after rest, rib.insertSaveReplaced route isPublic alloc =
      (.ok, ⟨(rib.find route.sourceRouterId route.pfx).map RouteEntry.route,
        (cloneOf rib.nextUpdateId route).updateId⟩, after, rest) ∧ alloc.Spent rest ∧ Stored rib after route) := by
  by_cases taken : route.sourceRouterId = 0 ∧
      (rib.find route.sourceRouterId route.pfx).isSome = true ∧ isPublic = true
  · simp only [insertSaveReplaced, if_pos taken]
    exact .inl ⟨.existing, rfl, .inr ⟨rfl, taken.1, taken.2.2⟩⟩
  · simp only [insertSaveReplaced, if_neg taken]
    by_cases fits : route.pfx.len ≤ family.width
    · obtain ⟨counter, ⟨rest, cloned, spent⟩ | ⟨copy, rest, failed, refused⟩⟩ :=
        routeClone_cases rib fits alloc
      · simp only [cloned]
        rcases linkNew_cases (invariant.counter counter).toConsistent
            (cloneOf rib.nextUpdateId route) fits rest with
          ⟨middle, left, linked, more, attached⟩ | ⟨middle, left, failed, more, undone⟩
        · simp only [linked]
          have joined : Attached rib middle (rib.newEntry route) :=
            ⟨attached.consistent, attached.joined, attached.linked_eq, attached.best⟩
          refine .inr (.inr ?_)
          rcases found : rib.find route.sourceRouterId route.pfx with _ | old
          · refine ⟨middle, left, rfl, spent.trans more, fits, invariant.attached joined found, ?_,
              middle, joined, .inl ⟨found, rfl⟩⟩
            intro entry
            have absent := invariant.toConsistent.find_eq_none_iff.mp found
            rw [joined.linked_eq, Set.mem_insert_iff]
            constructor
            · rintro (same | member)
              · exact .inl same
              · exact .inr ⟨member, absent entry member⟩
            · rintro (same | ⟨member, -⟩)
              · exact .inl same
              · exact .inr member
          · obtain ⟨oldIn, oldSource, oldPrefix⟩ := find_some found
            have oldMiddle : old ∈ middle.linked := by
              rw [joined.linked_eq]
              exact .inr oldIn
            obtain ⟨after, detaches, detached⟩ := detachEntry_spec attached.consistent oldMiddle left
            simp only [detaches]
            have different : rib.newEntry route ≠ old := by
              rintro same
              have below := invariant.bounded old oldIn
              rw [← same] at below
              exact Nat.lt_irrefl _ below
            have contents : ∀ entry, entry ∈ after.linked ↔ entry = rib.newEntry route ∨
                (entry ∈ rib.linked ∧ ¬ (entry.source = route.sourceRouterId ∧ entry.pfx = route.pfx)) := by
              intro entry
              rw [detached.linked_eq, joined.linked_eq, Set.mem_sdiff, Set.mem_insert_iff, Set.mem_singleton_iff]
              constructor
              · rintro ⟨same | member, other⟩
                · exact .inl same
                · refine .inr ⟨member, fun key => other ?_⟩
                  exact invariant.unique.eq_of_key member oldIn (by
                    rw [key.1, key.2, oldSource, oldPrefix])
              · rintro (same | ⟨member, other⟩)
                · exact ⟨.inl same, same ▸ different⟩
                · refine ⟨.inr member, ?_⟩
                  rintro rfl
                  exact other ⟨oldSource, oldPrefix⟩
            have unique : UniqueKeys (fun entry => (entry.source, entry.pfx)) after.routes.entries := by
              -- The new entry takes the key of the old one, so the keys of the table are a permutation.
              have whole : (old :: after.routes.entries).Perm (rib.newEntry route :: rib.routes.entries) :=
                detached.split.symm.trans joined.joined
              have keys := whole.map (fun entry => (entry.source, entry.pfx))
              have sameKey : (old.source, old.pfx) =
                  ((rib.newEntry route).source, (rib.newEntry route).pfx) := by
                rw [oldSource, oldPrefix]
                rfl
              simp only [List.map_cons, sameKey] at keys
              exact (List.Perm.cons_inv keys).nodup_iff.mpr invariant.unique
            exact ⟨after, left, rfl, spent.trans more, fits, ⟨detached.consistent, unique⟩, contents,
              middle, joined, .inr ⟨old, found, detached⟩⟩
        · simp only [failed]
          have back : Refused rib middle := ⟨undone.consistent,
            ⟨undone.same.routes, undone.same.sources, undone.same.groups, undone.same.best, undone.same.tree⟩⟩
          exact .inr (.inl ⟨middle, left, rfl, spent.trans_refused more, invariant.refused back, back.same⟩)
      · simp only [failed]
        exact .inr (.inl ⟨_, rest, rfl, refused, invariant.counter counter,
          List.Perm.refl _, fun _ => rfl, fun _ => rfl, fun _ => rfl, rfl⟩)
    · have rejects : rib.routeClone route alloc = (.invalid, route, rib, alloc) := by
        rw [routeClone, if_pos (Nat.lt_of_not_le fits)]
      simp only [rejects]
      exact .inl ⟨.invalid, rfl, .inl ⟨rfl, Nat.lt_of_not_le fits⟩⟩

section

variable (source : RouterId) (pfx : Prefix family.width)

/-- Detaching by key takes out the stored entry, or finds nothing. -/
theorem detach_cases (alloc : Allocator) :
    (rib.find source pfx = none ∧ rib.detach source pfx alloc = (.notFound, none, rib, alloc)) ∨
    (∃ entry after, rib.find source pfx = some entry ∧
      rib.detach source pfx alloc = (.ok, some entry, after, alloc) ∧ Detached rib after entry) := by
  unfold detach
  rcases found : rib.find source pfx with _ | entry
  · exact .inl ⟨rfl, rfl⟩
  · obtain ⟨after, detaches, detached⟩ := detachEntry_spec invariant.toConsistent (find_some found).1 alloc
    exact .inr ⟨entry, after, rfl, by simp only [detaches], detached⟩

/-- Withdrawing by key has the effect of detaching, although it works in another order. -/
theorem withdraw_cases (alloc : Allocator) :
    (rib.find source pfx = none ∧ rib.withdraw source pfx alloc = (.notFound, rib, alloc)) ∨
    (∃ entry after, rib.find source pfx = some entry ∧
      rib.withdraw source pfx alloc = (.ok, after, alloc) ∧ Detached rib after entry) := by
  unfold withdraw
  rcases found : rib.find source pfx with _ | entry
  · exact .inl ⟨rfl, rfl⟩
  · obtain ⟨member, -, samePrefix⟩ := find_some found
    have located : rib.routes.findFirst routeHash (family.hash pfx)
        (fun held => held.pfx == pfx && held.same entry) = some entry := by
      rw [Hashmap.findFirst_eq invariant.wf]
      have inChain := invariant.wf.mem_moduloChain member
      rw [routeHash, samePrefix] at inChain
      rcases search : (rib.routes.moduloChain (family.hash pfx)).find? (Hashmap.hit routeHash (family.hash pfx)
        fun held => held.pfx == pfx && held.same entry) with _ | other
      · have missed := List.find?_eq_none.mp search entry inChain
        simp [Hashmap.hit, routeHash, samePrefix, RouteEntry.same] at missed
      · have tested := List.find?_some search
        simp only [Hashmap.hit, RouteEntry.same, Bool.and_eq_true, beq_iff_eq] at tested
        have otherIn := Hashmap.mem_entries_of_mem_moduloChain (List.mem_of_find?_eq_some search)
        rw [invariant.stamps.eq_of_key otherIn member tested.2.2]
    obtain ⟨wf, split⟩ := Hashmap.removeOne_spec invariant.wf located
    obtain ⟨lpm, removed, detached⟩ := detached_of_parts invariant.toConsistent member wf split alloc
    refine .inr ⟨entry, _, rfl, ?_, detached⟩
    simp only [indexRemove, removed]

/-- A withdrawal tied to an update id removes only the entry that carries it. -/
theorem withdrawIfUpdateId_cases (updateId : UInt64) (alloc : Allocator) :
    (∃ err, rib.withdrawIfUpdateId source pfx updateId alloc = (err, rib, alloc) ∧
      (updateId = 0 ∨ ∀ entry, rib.find source pfx = some entry → entry.route.updateId ≠ updateId)) ∨
    (∃ entry after, rib.find source pfx = some entry ∧ entry.route.updateId = updateId ∧
      rib.withdrawIfUpdateId source pfx updateId alloc = (.ok, after, alloc) ∧ Detached rib after entry) := by
  unfold withdrawIfUpdateId
  by_cases none_ : updateId = 0
  · rw [if_pos none_]
    exact .inl ⟨.invalid, rfl, .inl none_⟩
  · rw [if_neg none_]
    rcases withdraw_cases invariant source pfx alloc with ⟨missing, -⟩ | ⟨entry, after, found, withdrew, detached⟩
    · rw [missing]
      exact .inl ⟨.notFound, rfl, .inr fun entry present => nomatch present⟩
    · simp only [found]
      by_cases tagged : entry.route.updateId = updateId
      · rw [if_pos tagged]
        exact .inr ⟨entry, after, rfl, tagged, withdrew, detached⟩
      · rw [if_neg tagged]
        refine .inl ⟨.ok, rfl, .inr fun other present => ?_⟩
        cases present
        exact tagged

end

/-- Linking a saved route again succeeds, or the table keeps its contents. -/
theorem attachDetached_cases (fits : route.pfx.len ≤ family.width)
    (absent : rib.find route.sourceRouterId route.pfx = none) (alloc : Allocator) :
    (∃ after rest, rib.attachDetached route alloc = (.ok, after, rest) ∧ alloc.Spent rest ∧
      Invariant after ∧ Attached rib after ⟨rib.nextStamp, route⟩) ∨
    (∃ after rest, rib.attachDetached route alloc = (.nomem, after, rest) ∧ alloc.Refused rest ∧
      Invariant after ∧ SameContents rib after) := by
  unfold attachDetached
  obtain ⟨wf, joined⟩ := Hashmap.relink_spec invariant.wf ⟨rib.nextStamp, route⟩
  simp only [absent, Option.isSome_none, Bool.false_eq_true, if_false]
  rcases indexAdd_cases invariant.toConsistent ⟨rib.nextStamp, route⟩ fits rfl wf joined alloc with
    ⟨after, rest, added, spent, attached⟩ | ⟨after, rest, failed, refused, undone⟩
  · simp only [added]
    exact .inl ⟨after, rest, rfl, spent, invariant.attached attached absent, attached⟩
  · simp only [failed]
    exact .inr ⟨after, rest, rfl, refused, invariant.refused undone, undone.same⟩

/-- Restoring a saved route links it where its key is free and changes nothing otherwise. -/
theorem restoreSavedIfAbsent_cases (source : RouterId)
    (saved : Option (Route family.width)) (fits : ∀ route ∈ saved, route.pfx.len ≤ family.width) (alloc : Allocator) :
    (∃ err, rib.restoreSavedIfAbsent source saved alloc = (err, saved, rib, alloc) ∧
      ∀ route ∈ saved, route.sourceRouterId = source → rib.find source route.pfx ≠ none) ∨
    (∃ route after rest, saved = some route ∧ route.sourceRouterId = source ∧
      rib.find source route.pfx = none ∧
      rib.restoreSavedIfAbsent source saved alloc = (.ok, none, after, rest) ∧ alloc.Spent rest ∧
      Invariant after ∧ Attached rib after ⟨rib.nextStamp, route⟩) ∨
    (∃ after rest, rib.restoreSavedIfAbsent source saved alloc = (.nomem, saved, after, rest) ∧
      alloc.Refused rest ∧ Invariant after ∧ SameContents rib after) := by
  unfold restoreSavedIfAbsent
  rcases saved with _ | route
  · exact .inl ⟨.ok, rfl, fun route absent => nomatch absent⟩
  · by_cases owner : route.sourceRouterId = source
    · subst owner
      simp only [ne_eq, not_true_eq_false, if_false]
      rcases found : rib.find route.sourceRouterId route.pfx with _ | held
      · simp only [Option.isSome_none, Bool.false_eq_true, if_false]
        rcases attachDetached_cases invariant (fits route rfl) found alloc with
          ⟨after, rest, linked, spent, result⟩ | ⟨after, rest, failed, refused, result⟩
        · simp only [linked]
          exact .inr (.inl ⟨route, after, rest, rfl, rfl, found, rfl, spent, result⟩)
        · simp only [failed]
          exact .inr (.inr ⟨after, rest, rfl, refused, result⟩)
      · simp only [Option.isSome_some, if_true]
        refine .inl ⟨.ok, rfl, fun other same _ => ?_⟩
        cases same
        rw [found]
        exact Option.some_ne_none held
    · simp only [ne_eq, owner, not_false_eq_true, if_true]
      refine .inl ⟨.invalid, rfl, fun other same sameOwner => ?_⟩
      cases same
      exact absurd sameOwner owner

end

/-- The linked entries together with the cached best routes. -/
structure Cache (family : AddrFamily) where
  linked : Set (RouteEntry family.width)
  best : Prefix family.width → Option (RouteEntry family.width)

def cache (rib : RibImpl family) : Cache family := ⟨rib.linked, rib.lpm.bestAt⟩

/-- One entry leaves; the best route of its group is chosen again only when it left. -/
def Cache.Leave (before after : Cache family) : Prop :=
  ∃ entry ∈ before.linked, after.linked = before.linked \ {entry} ∧
    ∃ remaining : List (RouteEntry family.width), remaining.Nodup ∧
      (∀ other, other ∈ remaining ↔
        (other ∈ before.linked ∧ LpmIndex.network other = LpmIndex.network entry) ∧ other ≠ entry) ∧
      ∀ net, after.best net =
        if net = LpmIndex.network entry then
          (if before.best net = some entry then LpmIndex.groupBest remaining else before.best net)
        else before.best net

/-- Entries leave one after the other. -/
def Cache.Shrinks : Cache family → Cache family → Prop :=
  Relation.ReflTransGen Cache.Leave

theorem Detached.leave (detached : Detached rib after entry) (member : entry ∈ rib.linked) :
    Cache.Leave rib.cache after.cache :=
  ⟨entry, member, detached.linked_eq, detached.best⟩

/-- Dropping a list of linked entries unlinks exactly these and keeps the groups in step. -/
theorem dropEntries_spec (rib : RibImpl family) (todo : List (RouteEntry family.width)) (alloc : Allocator)
    (wf : Hashmap.WellFormed routeHash rib.routes) (stamps : UniqueKeys RouteEntry.stamp rib.routes.entries)
    (valid : LpmIndex.Valid rib.linked) (indexes : rib.lpm.Indexes rib.linked)
    (distinct : todo.Nodup) (inside : ∀ entry ∈ todo, entry ∈ rib.linked) :
    ∃ after, rib.dropEntries alloc todo = (after, alloc) ∧ after.sources = rib.sources ∧
      after.nextStamp = rib.nextStamp ∧ Hashmap.WellFormed routeHash after.routes ∧
      rib.routes.entries.Perm (todo ++ after.routes.entries) ∧ after.lpm.Indexes after.linked ∧
      Cache.Shrinks rib.cache after.cache := by
  induction todo generalizing rib with
  | nil => exact ⟨rib, rfl, rfl, rfl, wf, List.Perm.refl _, indexes, Relation.ReflTransGen.refl⟩
  | cons entry rest ih =>
    have member : entry ∈ rib.linked := inside entry (by simp)
    have stamped : Stamped rib.linked := fun _ firstIn _ secondIn => stamps.eq_of_key firstIn secondIn
    obtain ⟨unlinkedWf, split⟩ := Hashmap.unlink_spec wf (find_same wf stamps member)
    obtain ⟨lpm, remaining, removed, lpmIndexes, remainingDistinct, members, left⟩ :=
      LpmIndex.remove_spec indexes valid stamped member alloc
    have others : RibImpl.linked { rib.entryUnlink entry with lpm := lpm } = rib.linked \ {entry} :=
      linked_diff stamps.nodup split
    obtain ⟨absent, restDistinct⟩ := List.nodup_cons.mp distinct
    have step : rib.dropEntries alloc (entry :: rest) =
        dropEntries { rib.entryUnlink entry with lpm := lpm } alloc rest := by
      have unlinkedLpm : (rib.entryUnlink entry).lpm.remove entry alloc = (lpm, alloc) := removed
      rw [dropEntries, find_same wf stamps member]
      simp only [unlinkedLpm]
    obtain ⟨after, dropped, sources, stamp, afterWf, contents, afterIndexes, shrinks⟩ :=
      ih { rib.entryUnlink entry with lpm := lpm } unlinkedWf
        (UniqueKeys.cons_iff.mp (stamps.perm split)).2
        (by rw [others]; exact fun other otherIn => valid other otherIn.1)
        (by rw [others]; exact lpmIndexes) restDistinct
        (by
          intro other otherIn
          rw [others]
          exact ⟨inside other (List.mem_cons_of_mem _ otherIn), fun same => absent (same ▸ otherIn)⟩)
    refine ⟨after, step.trans dropped, sources, stamp, afterWf, ?_, afterIndexes, ?_⟩
    · exact split.trans (contents.cons entry)
    · have leave : Cache.Leave rib.cache (cache { rib.entryUnlink entry with lpm := lpm }) :=
        ⟨entry, member, others, remaining, remainingDistinct, members, left⟩
      exact Relation.ReflTransGen.head leave shrinks

/-- The result of dropping all routes of a source. -/
structure Discarded (rib after : RibImpl family) (source : RouterId) : Prop where
  invariant : Invariant after
  linked_eq : after.linked = {entry | entry ∈ rib.linked ∧ entry.source ≠ source}
  shrinks : Cache.Shrinks rib.cache after.cache

/-- All entries of a source go, and no others. -/
theorem removeSource_spec (invariant : Invariant rib) (source : RouterId) (alloc : Allocator) :
    ∃ after, rib.removeSource source alloc = (after, alloc) ∧ Discarded rib after source := by
  unfold removeSource
  rcases found : rib.sources.find source with _ | held
  · refine ⟨rib, rfl, invariant, ?_, Relation.ReflTransGen.refl⟩
    ext entry
    constructor
    · intro member
      refine ⟨member, ?_⟩
      rintro rfl
      exact invariant.sources.partitions.covered entry member (by rw [SourceIndex.listing, found]; rfl)
    · exact fun member => member.1
  · have listed : rib.sources.listing source = some held.entries := by rw [SourceIndex.listing, found]; rfl
    have exact := invariant.sources.partitions.exact source held.entries listed
    obtain ⟨after, dropped, sources, stamp, wf, contents, indexes, shrinks⟩ := dropEntries_spec rib
      held.entries alloc invariant.wf invariant.stamps invariant.valid invariant.lpm
      (invariant.sources.partitions.nodup source held.entries listed)
      (fun entry member => ((exact entry).mp member).1)
    have allDistinct := contents.nodup_iff.mp invariant.stamps.nodup
    have others : after.linked = {entry | entry ∈ rib.linked ∧ entry.source ≠ source} := by
      ext entry
      change entry ∈ after.routes.entries ↔ entry ∈ rib.routes.entries ∧ entry.source ≠ source
      constructor
      · intro member
        have old : entry ∈ rib.routes.entries := contents.mem_iff.mpr (List.mem_append_right _ member)
        refine ⟨old, fun same => ?_⟩
        exact (List.nodup_append.mp allDistinct).2.2 entry ((exact entry).mpr ⟨old, same⟩) entry member rfl
      · rintro ⟨old, different⟩
        rcases List.mem_append.mp (contents.mem_iff.mp old) with listedIn | stays
        · exact absurd ((exact entry).mp listedIn).2 different
        · exact stays
    refine ⟨{ after with sources := after.sources.drop source }, by simp only [dropped],
      ⟨⟨wf, ?_, ?_, ?_, ?_, indexes⟩, ?_⟩, others, shrinks⟩
    · have whole := invariant.stamps.perm contents
      rw [UniqueKeys, List.map_append] at whole
      exact (List.nodup_append.mp whole).2.1
    · intro entry member
      rw [stamp]
      have old : entry ∈ after.linked := member
      rw [others] at old
      exact invariant.bounded entry old.1
    · intro entry member
      have old : entry ∈ after.linked := member
      rw [others] at old
      exact invariant.valid entry old.1
    · have rest := SourceIndex.drop_indexes invariant.sources found
      rw [← others] at rest
      rw [sources]
      exact rest
    · have whole := invariant.unique.perm contents
      rw [UniqueKeys, List.map_append] at whole
      exact (List.nodup_append.mp whole).2.1

end RibImpl

end Libbgp
