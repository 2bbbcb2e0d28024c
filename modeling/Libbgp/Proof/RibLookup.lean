import Libbgp.Proof.RibRun

namespace Libbgp

open Library LpmIndex List

namespace LpmIndex

variable {family : AddrFamily} {index : LpmIndex family} {linked : Set (RouteEntry family.width)}
  {dest : BitVec family.width} {best : RouteEntry family.width} {entry : RouteEntry family.width}

/-- A route covers the same addresses as its group. -/
theorem addrMatches_network (fits : entry.pfx.len ≤ family.width) :
    addrMatches family (network entry) dest = addrMatches family entry.pfx dest := by
  have length : (network entry).len = entry.pfx.len := by rw [network, lpmNormalizePrefix_of_le fits]
  rw [Bool.eq_iff_iff, addrMatches_iff_path (length.symm ▸ fits), addrMatches_iff_path fits]
  have path : radixPath (network entry).addr (network entry).len = radixPath entry.pfx.addr entry.pfx.len :=
    radixPath_normalized fits
  rw [path, length]

/-- The value at an initial segment of a destination is the cached best of a covering group. -/
theorem get_take_iff (indexes : Indexes index linked) {depth : Nat} (inside : depth ≤ family.width) :
    index.tree.root.get ((radixPath dest family.width).take depth) = some best ↔
      ∃ net, bestAt index net = some best ∧ net.len = depth ∧ addrMatches family net dest = true := by
  rw [indexes.tree]
  constructor
  · rintro ⟨net, cached, path⟩
    have length : net.len = depth := by
      simpa [Nat.min_eq_left inside] using congrArg length path
    refine ⟨net, cached, length, ?_⟩
    rw [addrMatches_iff_path (length ▸ inside), length, ← path, length]
  · rintro ⟨net, cached, rfl, covers⟩
    exact ⟨net, cached, ((addrMatches_iff_path inside dest).mp covers).symm⟩

/-- The tree finds the cached best of the longest covering group. -/
theorem lookupLpm_eq_some_iff (indexes : Indexes index linked) (valid : Valid linked) :
    index.tree.lookupLpm dest = some best ↔
      ∃ net, bestAt index net = some best ∧ addrMatches family net dest = true ∧
        ∀ other held, bestAt index other = some held → addrMatches family other dest = true →
          other.len ≤ net.len := by
  rw [Radix.lookupLpm, BitTrie.deepest_eq_some_iff, radixPath_length]
  constructor
  · rintro (⟨depth, inside, found, last⟩ | ⟨-, impossible⟩)
    · obtain ⟨net, cached, rfl, covers⟩ := (get_take_iff indexes inside).mp found
      refine ⟨net, cached, covers, fun other held otherCached otherCovers => ?_⟩
      by_contra longer
      have limit := (indexes.masked_of_best valid otherCached).1
      have present := (get_take_iff indexes limit).mpr ⟨other, otherCached, rfl, otherCovers⟩
      rw [last other.len (Nat.lt_of_not_le longer) limit] at present
      cases present
    · cases impossible
  · rintro ⟨net, cached, covers, longest⟩
    have limit := (indexes.masked_of_best valid cached).1
    refine .inl ⟨net.len, limit, (get_take_iff indexes limit).mpr ⟨net, cached, rfl, covers⟩, ?_⟩
    intro longer above within
    rcases found : index.tree.root.get ((radixPath dest family.width).take longer) with _ | held
    · rfl
    · obtain ⟨other, otherCached, rfl, otherCovers⟩ := (get_take_iff indexes within).mp found
      have bound := longest other held otherCached otherCovers
      omega

/-- A covering entry has a covering group of its length with a cached best. -/
theorem exists_covering (indexes : Indexes index linked) (valid : Valid linked) (member : entry ∈ linked)
    (covers : addrMatches family entry.pfx dest = true) :
    ∃ net held, bestAt index net = some held ∧ addrMatches family net dest = true ∧
      net.len = entry.pfx.len := by
  obtain ⟨held, cached⟩ := indexes.exists_bestAt member
  have fits := valid entry member
  refine ⟨network entry, held, cached, ?_, by rw [network, lpmNormalizePrefix_of_le fits]⟩
  rw [addrMatches_network fits]
  exact covers

/-- Copying the best routes stops early only when memory is refused. -/
theorem snapshotBests_cases (groups : List (LpmEntry family.width)) (count cap : Nat) (alloc : Allocator) :
    (∃ rest, RibImpl.snapshotBests count cap alloc groups = (.ok, groups.filterMap LpmEntry.best, rest) ∧
      alloc.Spent rest) ∨
    (∃ bests rest, RibImpl.snapshotBests count cap alloc groups = (.nomem, bests, rest) ∧
      bests <+: groups.filterMap LpmEntry.best ∧ alloc.Refused rest) := by
  induction groups generalizing count cap alloc with
  | nil => exact .inl ⟨alloc, rfl, .refl _⟩
  | cons group groups ih =>
    rcases cached : group.best with _ | best
    · simp only [RibImpl.snapshotBests, cached, filterMap_cons]
      exact ih count cap alloc
    · simp only [RibImpl.snapshotBests, cached, filterMap_cons]
      rcases RibImpl.reserveOne_cases count cap alloc with ⟨wide, rest, roomy, spent⟩ | ⟨rest, full, refused⟩
      · simp only [roomy]
        rcases RibImpl.snapshotClone_cases best.route rest with ⟨left, copied, more⟩ | ⟨left, failed, more⟩
        · simp only [copied]
          rcases ih (count + 1) wide left with ⟨last, done, tail⟩ | ⟨bests, last, stopped, initial, tail⟩
          · simp only [done]
            exact .inl ⟨last, rfl, spent.trans (more.trans tail)⟩
          · simp only [stopped]
            exact .inr ⟨best :: bests, last, rfl, by simpa using initial,
              spent.trans_refused (more.trans_refused tail)⟩
        · simp only [failed]
          exact .inr ⟨[], left, rfl, nil_prefix, spent.trans_refused more⟩
      · simp only [full]
        exact .inr ⟨[], rest, rfl, nil_prefix, refused⟩

/-- The groups hold one cached best for each network. -/
theorem network_nodup (indexes : Indexes index linked) :
    ((index.groups.entries.filterMap LpmEntry.best).map network).Nodup := by
  have owner : ∀ group ∈ index.groups.entries, ∀ held, group.best = some held → network held = group.pfx := by
    intro group member held cached
    have found := (indexes.keyed.find_eq_some_iff keyAgree).mpr ⟨member, rfl⟩
    exact (indexes.best_linked (show bestAt index group.pfx = some held by
      rw [bestAt, find, found]; exact cached)).2
  have keys := indexes.keyed.unique
  generalize index.groups.entries = groups at owner keys
  induction groups with
  | nil => exact nodup_nil
  | cons group groups ih =>
    obtain ⟨apart, others⟩ := UniqueKeys.cons_iff.mp keys
    have tail := ih (fun held member => owner held (mem_cons_of_mem _ member)) others
    rcases cached : group.best with _ | best
    · simpa only [filterMap_cons, cached] using tail
    · simp only [filterMap_cons, cached, map_cons, nodup_cons]
      refine ⟨fun twice => ?_, tail⟩
      obtain ⟨held, listed, sameNetwork⟩ := mem_map.mp twice
      obtain ⟨other, member, otherCached⟩ := mem_filterMap.mp listed
      rw [owner other (mem_cons_of_mem _ member) held otherCached,
        owner group mem_cons_self best cached] at sameNetwork
      exact apart other member sameNetwork

/-- The cached bests are those of some network. -/
theorem mem_bests_iff (indexes : Indexes index linked) :
    best ∈ index.groups.entries.filterMap LpmEntry.best ↔ ∃ net, bestAt index net = some best := by
  rw [mem_filterMap]
  constructor
  · rintro ⟨group, member, cached⟩
    have found := (indexes.keyed.find_eq_some_iff keyAgree).mpr ⟨member, rfl⟩
    exact ⟨group.pfx, by rw [bestAt, find, found]; exact cached⟩
  · rintro ⟨net, cached⟩
    obtain ⟨group, found, held⟩ := Option.bind_eq_some_iff.mp cached
    exact ⟨group, ((indexes.keyed.find_eq_some_iff keyAgree).mp found).1, held⟩

end LpmIndex

namespace RibImpl

variable {family : AddrFamily} {rib : RibImpl family} {dest : BitVec family.width}
  {best : RouteEntry family.width}

/-- The lookup returns the cached best of the longest covering network. -/
theorem lookup_eq_ok_iff (invariant : Invariant rib) :
    rib.lookup dest = .ok best ↔
      ∃ net, rib.lpm.bestAt net = some best ∧ addrMatches family net dest = true ∧
        ∀ entry ∈ rib.linked, addrMatches family entry.pfx dest = true → entry.pfx.len ≤ net.len := by
  have matching : rib.lookup dest = .ok best ↔ rib.lpm.tree.lookupLpm dest = some best := by
    rcases found : rib.lpm.tree.lookupLpm dest with _ | held
    · simp [lookup, found]
    · obtain ⟨net, cached, covers, -⟩ :=
        (lookupLpm_eq_some_iff invariant.lpm invariant.valid).mp found
      obtain ⟨member, rfl⟩ := invariant.lpm.best_linked cached
      rw [addrMatches_network (invariant.valid held member)] at covers
      simp [lookup, found, covers]
  rw [matching, lookupLpm_eq_some_iff invariant.lpm invariant.valid]
  refine exists_congr fun net => and_congr_right fun cached => and_congr_right fun covers => ?_
  constructor
  · intro longest entry member entryCovers
    obtain ⟨other, held, otherCached, otherCovers, length⟩ :=
      exists_covering invariant.lpm invariant.valid member entryCovers
    exact length ▸ longest other held otherCached otherCovers
  · intro longest other held otherCached otherCovers
    obtain ⟨member, rfl⟩ := invariant.lpm.best_linked otherCached
    have fits := invariant.valid held member
    rw [addrMatches_network fits] at otherCovers
    have length : (network held).len = held.pfx.len := by
      rw [network, lpmNormalizePrefix_of_le fits]
    exact length ▸ longest held member otherCovers

/-- The lookup fails exactly where no stored route covers the address. -/
theorem lookup_eq_notFound_iff (invariant : Invariant rib) :
    rib.lookup dest = .error .notFound ↔
      ∀ entry ∈ rib.linked, addrMatches family entry.pfx dest = false := by
  constructor
  · intro missing entry member
    by_contra covers
    rw [Bool.not_eq_false] at covers
    -- Among the covering routes one has the greatest length, and its group answers the lookup.
    obtain ⟨longest, ⟨longestIn, longestCovers⟩, maximal⟩ := Set.exists_max_image
      {held | held ∈ rib.linked ∧ addrMatches family held.pfx dest = true} (fun held => held.pfx.len)
      ((finite_toSet rib.routes.entries).subset fun held inside => inside.1) ⟨entry, member, covers⟩
    obtain ⟨net, held, cached, netCovers, length⟩ :=
      exists_covering invariant.lpm invariant.valid longestIn longestCovers
    have found : rib.lookup dest = .ok held := (lookup_eq_ok_iff invariant).mpr
      ⟨net, cached, netCovers, fun other otherIn otherCovers => length ▸ maximal other ⟨otherIn, otherCovers⟩⟩
    rw [missing] at found
    cases found
  · intro none
    rcases found : rib.lookup dest with err | held
    · simp only [lookup] at found
      split at found
      · exact found.symm
      · split at found
        · cases found
        · exact found.symm
    · obtain ⟨net, cached, covers, -⟩ := (lookup_eq_ok_iff invariant).mp found
      obtain ⟨member, rfl⟩ := invariant.lpm.best_linked cached
      rw [addrMatches_network (invariant.valid held member), none held member] at covers
      cases covers

/-- The scan of one source finds a covering route of greatest length. -/
theorem lookupScoped_spec (invariant : Invariant rib) (source : RouterId) (dest : BitVec family.width) :
    ((∃ best, rib.lookupScoped source dest = .ok best) ↔
      ∃ entry ∈ rib.linked, entry.source = source ∧ addrMatches family entry.pfx dest = true) ∧
    ∀ best, rib.lookupScoped source dest = .ok best →
      best ∈ rib.linked ∧ best.source = source ∧ addrMatches family best.pfx dest = true ∧
        ∀ entry ∈ rib.linked, entry.source = source → addrMatches family entry.pfx dest = true →
          entry.pfx.len ≤ best.pfx.len := by
  have inScan : ∀ entry, entry ∈ (rib.sourceEntries source).filter (fun held => addrMatches family held.pfx dest) ↔
      (entry ∈ rib.linked ∧ entry.source = source) ∧ addrMatches family entry.pfx dest = true := fun entry => by
    rw [mem_filter]
    exact and_congr_left' (invariant.sources.partitions.mem_getD source entry)
  have scan : ∀ best, rib.lookupScoped source dest = .ok best ↔ Preference.select longerOrBetter
      ((rib.sourceEntries source).filter fun held => addrMatches family held.pfx dest) = some best := by
    intro best
    rcases located : rib.sources.find source with _ | held
    · simp [lookupScoped, sourceEntries, located, Preference.select]
    · simp only [lookupScoped, sourceEntries, located, Option.map_some, Option.getD_some]
      split <;> simp_all
  constructor
  · constructor
    · rintro ⟨best, found⟩
      obtain ⟨⟨member, own⟩, covers⟩ := (inScan best).mp (Preference.select_mem ((scan best).mp found))
      exact ⟨best, member, own, covers⟩
    · rintro ⟨entry, member, own, covers⟩
      rcases selected : Preference.select longerOrBetter
          ((rib.sourceEntries source).filter fun held => addrMatches family held.pfx dest) with _ | best
      · have listed := (inScan entry).mpr ⟨⟨member, own⟩, covers⟩
        rw [Preference.select_eq_none_iff.mp selected] at listed
        cases listed
      · exact ⟨best, (scan best).mpr selected⟩
  · intro best found
    have selected := (scan best).mp found
    obtain ⟨⟨member, own⟩, covers⟩ := (inScan best).mp (Preference.select_mem selected)
    refine ⟨member, own, covers, fun entry entryIn entryOwn entryCovers => ?_⟩
    refine Preference.select_rank (fun held => held.pfx.len) ?_ ?_ selected entry
      ((inScan entry).mpr ⟨⟨entryIn, entryOwn⟩, entryCovers⟩)
    · intro a b preferred
      simp only [longerOrBetter, Bool.or_eq_true, decide_eq_true_eq, Bool.and_eq_true, beq_iff_eq] at preferred
      omega
    · intro a b longer
      simp [longerOrBetter, longer]

/-- The walk visits networks at most once, each with its cached best, and all of them unless memory
is refused. -/
theorem foreachBestRoute_spec (invariant : Invariant rib) (alloc : Allocator) :
    ((rib.foreachBestRoute alloc).2.1.map network).Nodup ∧
    (∀ best ∈ (rib.foreachBestRoute alloc).2.1, rib.lpm.bestAt (network best) = some best) ∧
    ((rib.foreachBestRoute alloc).1 = .ok → ∀ entry ∈ rib.linked,
      ∃ best ∈ (rib.foreachBestRoute alloc).2.1, network best = network entry) ∧
    (alloc.Generous → (rib.foreachBestRoute alloc).1 = .ok) := by
  have cachedAt : ∀ best ∈ rib.lpm.groups.entries.filterMap LpmEntry.best,
      rib.lpm.bestAt (network best) = some best := by
    intro best member
    obtain ⟨net, cached⟩ := (mem_bests_iff invariant.lpm).mp member
    rw [(invariant.lpm.best_linked cached).2]
    exact cached
  unfold foreachBestRoute
  rcases snapshotBests_cases rib.lpm.groups.entries 0 0 alloc with
    ⟨rest, done, -⟩ | ⟨bests, rest, stopped, initial, refused⟩
  · rw [done]
    refine ⟨network_nodup invariant.lpm, cachedAt, fun _ entry member => ?_, fun _ => rfl⟩
    obtain ⟨held, cached⟩ := invariant.lpm.exists_bestAt member
    exact ⟨held, (mem_bests_iff invariant.lpm).mpr ⟨_, cached⟩, (invariant.lpm.best_linked cached).2⟩
  · rw [stopped]
    refine ⟨?_, fun best member => cachedAt best (initial.subset member), fun ok => Err.noConfusion ok, ?_⟩
    · exact (network_nodup invariant.lpm).sublist (initial.sublist.map _)
    · exact fun generous => absurd refused generous.not_refused

theorem foreachBestRoute_spent (rib : RibImpl family) (alloc : Allocator) :
    alloc.Spent (rib.foreachBestRoute alloc).2.2 := by
  unfold foreachBestRoute
  rcases snapshotBests_cases rib.lpm.groups.entries 0 0 alloc with
    ⟨rest, done, spent⟩ | ⟨bests, rest, stopped, -, refused⟩
  · rw [done]
    exact spent
  · rw [stopped]
    exact refused.spent

end RibImpl

/-- In every reachable table, the lookup finds the cached best of the longest covering network, the
scoped lookup finds a longest covering route of its source, and the walk visits every network once,
with its cached best. -/
theorem ribRun_lookup (af : Af) (steps : List (RibOp af × Allocator)) :
    (∀ dest, (ribRun af steps).rib.lookup dest = .error .notFound ↔
      ∀ entry ∈ (ribRun af steps).rib.linked, addrMatches af.family entry.pfx dest = false) ∧
    (∀ dest best, (ribRun af steps).rib.lookup dest = .ok best ↔
      ∃ net, (ribRun af steps).rib.lpm.bestAt net = some best ∧ addrMatches af.family net dest = true ∧
        ∀ entry ∈ (ribRun af steps).rib.linked, addrMatches af.family entry.pfx dest = true →
          entry.pfx.len ≤ net.len) ∧
    (∀ source dest, ((∃ best, (ribRun af steps).rib.lookupScoped source dest = .ok best) ↔
        ∃ entry ∈ (ribRun af steps).rib.linked, entry.source = source ∧
          addrMatches af.family entry.pfx dest = true) ∧
      ∀ best, (ribRun af steps).rib.lookupScoped source dest = .ok best →
        best ∈ (ribRun af steps).rib.linked ∧ best.source = source ∧
          addrMatches af.family best.pfx dest = true ∧
          ∀ entry ∈ (ribRun af steps).rib.linked, entry.source = source →
            addrMatches af.family entry.pfx dest = true → entry.pfx.len ≤ best.pfx.len) ∧
    (∀ alloc, (((ribRun af steps).rib.foreachBestRoute alloc).2.1.map network).Nodup ∧
      (∀ best ∈ ((ribRun af steps).rib.foreachBestRoute alloc).2.1,
        (ribRun af steps).rib.lpm.bestAt (network best) = some best) ∧
      (((ribRun af steps).rib.foreachBestRoute alloc).1 = .ok → ∀ entry ∈ (ribRun af steps).rib.linked,
        ∃ best ∈ ((ribRun af steps).rib.foreachBestRoute alloc).2.1,
          network best = network entry) ∧
      (alloc.Generous → ((ribRun af steps).rib.foreachBestRoute alloc).1 = .ok)) := by
  have invariant := (ribRun_sound af steps).invariant
  exact ⟨fun dest => RibImpl.lookup_eq_notFound_iff invariant,
    fun dest best => RibImpl.lookup_eq_ok_iff invariant,
    fun source dest => RibImpl.lookupScoped_spec invariant source dest,
    fun alloc => RibImpl.foreachBestRoute_spec invariant alloc⟩

end Libbgp
