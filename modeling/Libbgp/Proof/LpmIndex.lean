import Libbgp.Proof.Radix
import Libbgp.Proof.SourceIndex

namespace Libbgp

open Library

namespace LpmIndex

variable {family : AddrFamily} {index after : LpmIndex family} {linked : Set (RouteEntry family.width)}
  {entry : RouteEntry family.width} {net : Prefix family.width} {group : LpmEntry family.width}

/-- Every linked entry has a possible prefix length. -/
def Valid (linked : Set (RouteEntry family.width)) : Prop :=
  ∀ entry ∈ linked, entry.pfx.len ≤ family.width

theorem keyAgree : Hashmap.KeyAgree (@hash family) LpmEntry.pfx family.hash keyEq where
  hash_eq _ := rfl
  eq_iff wanted group := by simp [keyEq]

/-- The routes listed for a masked prefix. -/
def listing (index : LpmIndex family) (net : Prefix family.width) : Option (List (RouteEntry family.width)) :=
  (find index net).map LpmEntry.entries

/-- The cached best route of a masked prefix. -/
def bestAt (index : LpmIndex family) (net : Prefix family.width) : Option (RouteEntry family.width) :=
  (find index net).bind LpmEntry.best

/-- The tree holds exactly the given routes, each at the path of its masked prefix. -/
def TreeMatches (root : BitTrie (RouteEntry family.width))
    (bestAt : Prefix family.width → Option (RouteEntry family.width)) : Prop :=
  ∀ path best, root.get path = some best ↔
    ∃ net, bestAt net = some best ∧ radixPath net.addr net.len = path

/-- The groups partition the linked entries by masked prefix, each cached best is a member of its
group, and the tree holds the cached best routes. -/
structure Indexes (index : LpmIndex family) (linked : Set (RouteEntry family.width)) : Prop where
  keyed : Hashmap.Keyed hash LpmEntry.pfx index.groups
  partitions : Partitions network (listing index) linked
  best_mem : ∀ net entries, listing index net = some entries → ∃ best ∈ entries, bestAt index net = some best
  pruned : index.tree.root.Pruned
  tree : TreeMatches index.tree.root (bestAt index)

theorem find_init (net : Prefix family.width) : find (init family) net = none := by
  change Hashmap.findFirst hash Hashmap.init (family.hash net) (keyEq net) = none
  rw [Hashmap.init_keyed.find_eq_none_iff keyAgree]
  simp

theorem init_indexes : Indexes (init family) ∅ where
  keyed := Hashmap.init_keyed
  partitions := Partitions.empty fun net => by rw [listing, find_init, Option.map_none]
  best_mem net entries found := by simp [listing, find_init] at found
  pruned := trivial
  tree path best := by
    have bare : (init family).tree.root.get path = none := BitTrie.get_nil path
    simp [bare, bestAt, find_init]

namespace Indexes

variable {net : Prefix family.width} {best : RouteEntry family.width}

section

variable (indexes : Indexes index linked)

include indexes

theorem masked (valid : Valid linked) {entries : List (RouteEntry family.width)}
    (listed : listing index net = some entries) : Masked family net := by
  obtain ⟨first, inside⟩ := List.exists_mem_of_ne_nil _ (indexes.partitions.nonempty net entries listed)
  obtain ⟨member, rfl⟩ := (indexes.partitions.exact net entries listed first).mp inside
  exact normalized_masked (valid first member)

theorem masked_of_best (valid : Valid linked) (cached : bestAt index net = some best) : Masked family net := by
  obtain ⟨group, found, -⟩ := Option.bind_eq_some_iff.mp cached
  exact indexes.masked valid (show listing index net = some group.entries by rw [listing, found]; rfl)

/-- A cached best route is linked and belongs to its group. -/
theorem best_linked (cached : bestAt index net = some best) : best ∈ linked ∧ network best = net := by
  obtain ⟨group, found, held⟩ := Option.bind_eq_some_iff.mp cached
  have listed : listing index net = some group.entries := by rw [listing, found]; rfl
  obtain ⟨other, inside, same⟩ := indexes.best_mem net group.entries listed
  rw [cached] at same
  cases same
  exact (indexes.partitions.exact net group.entries listed best).mp inside

/-- The group of a linked entry has a cached best. -/
theorem exists_bestAt {entry : RouteEntry family.width}
    (member : entry ∈ linked) : ∃ held, bestAt index (network entry) = some held := by
  obtain ⟨entries, listed, -⟩ := indexes.partitions.mem_list member
  obtain ⟨held, -, cached⟩ := indexes.best_mem _ _ listed
  exact ⟨held, cached⟩

/-- Only listings, cached routes and the tree matter. -/
theorem congr (keyed : Hashmap.Keyed hash LpmEntry.pfx after.groups)
    (sameListing : ∀ net, listing after net = listing index net)
    (sameBest : ∀ net, bestAt after net = bestAt index net) (sameTree : after.tree = index.tree) :
    Indexes after linked where
  keyed := keyed
  partitions := by
    rw [funext sameListing]
    exact indexes.partitions
  best_mem := by
    intro net entries listed
    rw [sameListing] at listed
    rw [sameBest]
    exact indexes.best_mem net entries listed
  pruned := sameTree ▸ indexes.pruned
  tree := by
    rw [sameTree, funext sameBest]
    exact indexes.tree

end

end Indexes

/-- Writing one masked prefix in the tree and in the cache keeps them equal. -/
theorem TreeMatches.write {root changed : BitTrie (RouteEntry family.width)}
    {before : Prefix family.width → Option (RouteEntry family.width)}
    {now : Prefix family.width → Option (RouteEntry family.width)} {value : Option (RouteEntry family.width)}
    (matches_ : TreeMatches root before) (netMasked : Masked family net)
    (masked : ∀ other best, before other = some best → Masked family other)
    (written : ∀ path, changed.get path = if path = radixPath net.addr net.len then value else root.get path)
    (cached : ∀ other, now other = if other = net then value else before other) : TreeMatches changed now := by
  intro path best
  rw [written]
  split
  · next here =>
      subst here
      constructor
      · rintro rfl
        exact ⟨net, by rw [cached, if_pos rfl], rfl⟩
      · rintro ⟨other, held, same⟩
        rw [cached] at held
        split at held
        · exact held
        · next elsewhere =>
            exact absurd ((masked other best held).eq_of_path netMasked same) elsewhere
  · next elsewhere =>
      rw [matches_ path best]
      constructor
      · rintro ⟨other, held, rfl⟩
        refine ⟨other, ?_, rfl⟩
        rw [cached, if_neg (fun same => elsewhere (by rw [same]))]
        exact held
      · rintro ⟨other, held, rfl⟩
        rw [cached, if_neg (fun same => elsewhere (by rw [same]))] at held
        exact ⟨other, held, rfl⟩

section Records

variable {net : Prefix family.width} {group : LpmEntry family.width} {record : Option (LpmEntry family.width)}

theorem find_update (index : LpmIndex family) (keyed : Hashmap.Keyed hash LpmEntry.pfx index.groups)
    (change : LpmEntry family.width → LpmEntry family.width) (sameKey : ∀ held, (change held).pfx = held.pfx)
    (found : find index net = some group) :
    Hashmap.Keyed hash LpmEntry.pfx (update index net change).groups ∧
      ∀ other, find (update index net change) other =
        if other = net then some (change group) else find index other :=
  keyed.update keyAgree change sameKey found

theorem find_groupRemove (index : LpmIndex family) (keyed : Hashmap.Keyed hash LpmEntry.pfx index.groups)
    (found : find index net = some group) :
    Hashmap.Keyed hash LpmEntry.pfx (groupRemove index net).groups ∧
      ∀ other, find (groupRemove index net) other = if other = net then none else find index other :=
  keyed.removeOne keyAgree found

theorem listing_of_find (lookups : ∀ other, find after other = if other = net then record else find index other)
    (other : Prefix family.width) :
    listing after other = if other = net then record.map LpmEntry.entries else listing index other := by
  rw [listing, lookups]
  split <;> rfl

theorem bestAt_of_find (lookups : ∀ other, find after other = if other = net then record else find index other)
    (other : Prefix family.width) :
    bestAt after other = if other = net then record.bind LpmEntry.best else bestAt index other := by
  rw [bestAt, lookups]
  split <;> rfl

end Records

/-- The cached best route after an entry has joined its group. -/
def Joined (index after : LpmIndex family) (entry : RouteEntry family.width) : Prop :=
  ∀ net, bestAt after net =
    if net = network entry then
      (if (bestAt index net).all (entryBetter entry) then some entry else bestAt index net)
    else bestAt index net

/-- The shared conclusion of every successful append. -/
theorem Indexes.extend (indexes : Indexes index linked) (fresh : entry ∉ linked)
    (keyed : Hashmap.Keyed hash LpmEntry.pfx after.groups) {record : LpmEntry family.width}
    (lookups : ∀ other, find after other = if other = network entry then some record else find index other)
    (grown : record.entries = (listing index (network entry)).getD [] ++ [entry])
    (cached : record.best = if (bestAt index (network entry)).all (entryBetter entry) then some entry
      else bestAt index (network entry))
    (pruned : after.tree.root.Pruned) (tree : TreeMatches after.tree.root (bestAt after)) :
    Indexes after (insert entry linked) ∧ Joined index after entry := by
  have listings := listing_of_find lookups
  have joined : Joined index after entry := by
    intro net
    rw [bestAt_of_find lookups]
    split
    · next here => rw [here]; exact cached
    · rfl
  refine ⟨⟨keyed, indexes.partitions.extend fresh fun net => ?_, ?_, pruned, tree⟩, joined⟩
  · rw [listings]
    split
    · next here => rw [here]; exact congrArg some grown
    · rfl
  · intro net entries listed
    rw [listings] at listed
    rw [joined]
    split at listed
    · next here =>
        cases listed
        rw [if_pos here, here, grown]
        split
        · exact ⟨entry, by simp, rfl⟩
        · rcases held : bestAt index (network entry) with _ | best
          · next loses => simp [held] at loses
          · have inside := (indexes.partitions.mem_getD (network entry) best).mpr (indexes.best_linked held)
            exact ⟨best, List.mem_append_left _ inside, rfl⟩
    · next elsewhere =>
        rw [if_neg elsewhere]
        exact indexes.best_mem net entries listed

theorem treeInsert_eq (index : LpmIndex family) {alloc rest : Allocator} {err : Err}
    {tree : Radix (RouteEntry family.width)}
    (inserted : index.tree.insert net.addr net.len entry alloc = (err, tree, rest)) :
    index.treeInsert net entry alloc = (err, { index with tree := tree }, rest) := by
  rw [treeInsert, inserted]

/-- Two writes to the record of one group. -/
theorem find_update_update (keyed : Hashmap.Keyed hash LpmEntry.pfx index.groups)
    (first second : LpmEntry family.width → LpmEntry family.width) (firstKey : ∀ held, (first held).pfx = held.pfx)
    (secondKey : ∀ held, (second held).pfx = held.pfx) (found : find index net = some group)
    (tree : Radix (RouteEntry family.width)) :
    Hashmap.Keyed hash LpmEntry.pfx (update { update index net first with tree := tree } net second).groups ∧
      ∀ other, find (update { update index net first with tree := tree } net second) other =
        if other = net then some (second (first group)) else find index other := by
  obtain ⟨firstKeyed, firstFind⟩ := find_update index keyed first firstKey found
  have between : find { update index net first with tree := tree } net = some (first group) := by
    have := firstFind net
    rwa [if_pos rfl] at this
  obtain ⟨secondKeyed, secondFind⟩ := find_update
    { update index net first with tree := tree } firstKeyed second secondKey between
  refine ⟨secondKeyed, fun other => ?_⟩
  rw [secondFind]
  split
  · rfl
  · next elsewhere =>
      have := firstFind other
      rwa [if_neg elsewhere] at this

section

variable (indexes : Indexes index linked) (valid : Valid linked) (fresh : entry ∉ linked)
  (fits : entry.pfx.len ≤ family.width)

include indexes valid fresh fits

/-- An existing group takes the entry without any allocation: its path is already in the tree. -/
theorem append_existing {held : LpmEntry family.width} (found : find index (network entry) = some held)
    (key : group.pfx = network entry) (sameBest : group.best = held.best) (created : Bool) (alloc : Allocator) :
    ∃ after, append index group created entry alloc = (.ok, after, alloc) ∧
      Indexes after (insert entry linked) ∧ Joined index after entry := by
  have listed : listing index (network entry) = some held.entries := by rw [listing, found]; rfl
  have cachedAt : bestAt index (network entry) = held.best := by rw [bestAt, found]; rfl
  obtain ⟨best, -, cached⟩ := indexes.best_mem _ _ listed
  have heldBest : held.best = some best := cachedAt.symm.trans cached
  have netMasked : Masked family (network entry) := normalized_masked fits
  have allMasked : ∀ other best, bestAt index other = some best → Masked family other :=
    fun other best => indexes.masked_of_best valid
  unfold append
  simp only [key, sameBest, heldBest, Option.all_some]
  by_cases wins : entryBetter entry best = true
  · have occupied : index.tree.root.get (radixPath (network entry).addr (network entry).len) = some best :=
      (indexes.tree _ _).mpr ⟨network entry, cached, rfl⟩
    obtain ⟨tree, inserted, pruned, written⟩ :=
      Radix.insert_occupied indexes.pruned netMasked.1 occupied entry alloc
    have grown := treeInsert_eq (update index (network entry) fun held =>
      { held with entries := held.entries ++ [entry] }) inserted
    rw [if_pos wins, grown]
    obtain ⟨keyed, lookups⟩ := find_update_update indexes.keyed
      (fun held => { held with entries := held.entries ++ [entry] })
      (fun held => { held with best := some entry }) (fun _ => rfl) (fun _ => rfl) found tree
    refine ⟨_, rfl, indexes.extend fresh keyed lookups ?_ ?_ pruned ?_⟩
    · rw [listed]; rfl
    · rw [cached]; simp [wins]
    · exact indexes.tree.write netMasked allMasked written (bestAt_of_find lookups)
  · rw [if_neg wins]
    obtain ⟨keyed, lookups⟩ := find_update index indexes.keyed
      (fun held => { held with entries := held.entries ++ [entry] }) (fun _ => rfl) found
    have sameCache : ∀ other, bestAt (update index (network entry) fun held =>
        { held with entries := held.entries ++ [entry] }) other = bestAt index other := by
      intro other
      rw [bestAt_of_find lookups]
      split
      · next here => rw [here, cachedAt]; rfl
      · rfl
    refine ⟨_, rfl, indexes.extend fresh keyed lookups ?_ ?_ indexes.pruned ?_⟩
    · rw [listed]; rfl
    · rw [cached]; simp [wins, heldBest]
    · rw [funext sameCache]; exact indexes.tree

/-- A new group takes its first entry, or the tree is refused memory and the group is taken back. -/
theorem append_created (missing : find index (network entry) = none)
    {groups : Hashmap (LpmEntry family.width)} (keyed : Hashmap.Keyed hash LpmEntry.pfx groups)
    (lookups : ∀ other, find { index with groups := groups } other =
      if other = network entry then some ⟨network entry, [], 1, none⟩ else find index other)
    (alloc : Allocator) :
    (∃ after rest, append { index with groups := groups } ⟨network entry, [], 1, none⟩ true entry alloc =
        (.ok, after, rest) ∧ alloc.Spent rest ∧ Indexes after (insert entry linked) ∧ Joined index after entry) ∨
    (∃ after rest, append { index with groups := groups } ⟨network entry, [], 1, none⟩ true entry alloc =
        (.nomem, after, rest) ∧ alloc.Refused rest ∧ Hashmap.Keyed hash LpmEntry.pfx after.groups ∧
        (∀ other, find after other = find index other) ∧ after.tree = index.tree) := by
  have found : find { index with groups := groups } (network entry) = some ⟨network entry, [], 1, none⟩ := by
    rw [lookups, if_pos rfl]
  have unlisted : listing index (network entry) = none := by rw [listing, missing]; rfl
  have uncached : bestAt index (network entry) = none := by rw [bestAt, missing]; rfl
  have netMasked : Masked family (network entry) := normalized_masked fits
  have allMasked : ∀ other best, bestAt index other = some best → Masked family other :=
    fun other best => indexes.masked_of_best valid
  unfold append
  simp only [Option.all_none, if_true]
  rcases Radix.insert_cases (network entry).addr indexes.pruned netMasked.1 entry alloc with
    ⟨tree, rest, inserted, spent, pruned, written⟩ | ⟨rest, failed, refused⟩
  · have grown := treeInsert_eq (update { index with groups := groups } (network entry) fun held =>
      { held with entries := held.entries ++ [entry] }) inserted
    rw [grown]
    obtain ⟨finalKeyed, finalFind⟩ := find_update_update keyed
      (fun held => { held with entries := held.entries ++ [entry] })
      (fun held => { held with best := some entry }) (fun _ => rfl) (fun _ => rfl) found tree
    have finalLookups : ∀ other, find (update { update { index with groups := groups } (network entry)
        (fun held => { held with entries := held.entries ++ [entry] }) with tree := tree } (network entry)
          fun held => { held with best := some entry }) other =
        if other = network entry then some ⟨network entry, [entry], 1, some entry⟩ else find index other := by
      intro other
      rw [finalFind]
      split
      · rfl
      · next elsewhere => rw [lookups, if_neg elsewhere]
    refine .inl ⟨_, rest, rfl, spent, indexes.extend fresh finalKeyed finalLookups ?_ ?_ pruned ?_⟩
    · rw [unlisted]; rfl
    · rw [uncached]; simp
    · exact indexes.tree.write netMasked allMasked written (bestAt_of_find finalLookups)
  · have grown := treeInsert_eq (update { index with groups := groups } (network entry) fun held =>
      { held with entries := held.entries ++ [entry] }) failed
    rw [grown]
    obtain ⟨backKeyed, backFind⟩ := find_update_update keyed
      (fun held => { held with entries := held.entries ++ [entry] })
      (fun held => { held with entries := held.entries.dropLast })
      (fun _ => rfl) (fun _ => rfl) found index.tree
    have present : find (update { update { index with groups := groups } (network entry)
        (fun held => { held with entries := held.entries ++ [entry] }) with tree := index.tree } (network entry)
          fun held => { held with entries := held.entries.dropLast }) (network entry) =
        some ⟨network entry, [], 1, none⟩ := by
      rw [backFind, if_pos rfl]
      rfl
    obtain ⟨goneKeyed, goneFind⟩ := find_groupRemove _ backKeyed present
    refine .inr ⟨_, rest, rfl, refused, goneKeyed, fun other => ?_, rfl⟩
    have located := goneFind other
    split at located
    · next here => rw [here, missing]; exact here ▸ located
    · next elsewhere =>
        rw [backFind, if_neg elsewhere, lookups, if_neg elsewhere] at located
        exact located

/-- Adding an entry to its group keeps the index, or memory is refused and every group and the tree stay. -/
theorem add_cases (alloc : Allocator) :
    (∃ after rest, add index entry alloc = (.ok, after, rest) ∧ alloc.Spent rest ∧
      Indexes after (insert entry linked) ∧ Joined index after entry) ∨
    (∃ after rest, add index entry alloc = (.nomem, after, rest) ∧ alloc.Refused rest ∧
      Indexes after linked ∧ (∀ net, find after net = find index net) ∧ after.tree = index.tree) := by
  have restored : ∀ after : LpmIndex family, Hashmap.Keyed hash LpmEntry.pfx after.groups →
      (∀ net, find after net = find index net) → after.tree = index.tree → Indexes after linked := by
    intro after keyed lookups tree
    exact indexes.congr keyed (fun net => by rw [listing, lookups]; rfl)
      (fun net => by rw [bestAt, lookups]; rfl) tree
  unfold add
  rcases found : find index (network entry) with _ | held
  · rcases alloc.requests_cases 3 with ⟨rest, granted, spent⟩ | ⟨rest, denied, refused⟩
    · simp only [granted]
      rcases indexes.keyed.insert_cases keyAgree ⟨network entry, [], 1, none⟩ found rest with
        ⟨groups, left, inserted, more, keyed, lookups⟩ | ⟨groups, left, failed, more, keyed, lookups⟩
      · have step := append_created indexes valid fresh fits found keyed lookups left
        simp only [inserted]
        rcases step with ⟨after, last, done, used, result⟩ | ⟨after, last, undone, denied, finalKeyed, same, tree⟩
        · exact .inl ⟨after, last, done, (spent.trans more).trans used, result⟩
        · exact .inr ⟨after, last, undone, (spent.trans more).trans_refused denied,
            restored after finalKeyed same tree, same, tree⟩
      · simp only [failed]
        have same : ∀ net, find { index with groups := groups } net = find index net := lookups
        exact .inr ⟨{ index with groups := groups }, left, rfl, spent.trans_refused more,
          restored _ keyed same rfl, same, rfl⟩
    · simp only [denied]
      exact .inr ⟨index, rest, rfl, refused, indexes, fun _ => rfl, rfl⟩
  · have key : held.pfx = network entry := ((indexes.keyed.find_eq_some_iff keyAgree).mp found).2
    dsimp only
    split
    · rcases alloc.request_cases with ⟨rest, granted, spent⟩ | ⟨rest, denied, refused⟩
      · simp only [granted]
        obtain ⟨keyed, lookups⟩ := find_update index indexes.keyed
          (fun held => { held with cap := nextCap held.cap }) (fun _ => rfl) found
        have sameListing : ∀ net, listing (update index (network entry) fun held =>
            { held with cap := nextCap held.cap }) net = listing index net := by
          intro net
          rw [listing_of_find lookups]
          split
          · next here => rw [here, listing, found]; rfl
          · rfl
        have sameBest : ∀ net, bestAt (update index (network entry) fun held =>
            { held with cap := nextCap held.cap }) net = bestAt index net := by
          intro net
          rw [bestAt_of_find lookups]
          split
          · next here => rw [here, bestAt, found]; rfl
          · rfl
        have roomy := indexes.congr keyed sameListing sameBest rfl
        have located := lookups (network entry)
        rw [if_pos rfl] at located
        obtain ⟨after, done, result, joined⟩ :=
          append_existing roomy valid fresh fits located key rfl false rest
        refine .inl ⟨after, rest, done, spent, result, fun net => ?_⟩
        rw [joined net, sameBest]
      · simp only [denied]
        exact .inr ⟨index, rest, rfl, refused, indexes, fun _ => rfl, rfl⟩
    · obtain ⟨after, done, result⟩ := append_existing indexes valid fresh fits found key rfl false alloc
      exact .inl ⟨after, alloc, done, .refl _, result⟩

end

/-- The cached best route after an entry has left its group. -/
def Left (index after : LpmIndex family) (entry : RouteEntry family.width)
    (remaining : List (RouteEntry family.width)) : Prop :=
  ∀ net, bestAt after net =
    if net = network entry then
      (if bestAt index net = some entry then groupBest remaining else bestAt index net)
    else bestAt index net

/-- Removing a linked entry needs no memory. The best route is chosen again only when it left. -/
theorem remove_spec (indexes : Indexes index linked) (valid : Valid linked) (stamped : Stamped linked)
    (member : entry ∈ linked) (alloc : Allocator) :
    ∃ after remaining, remove index entry alloc = (after, alloc) ∧ Indexes after (linked \ {entry}) ∧
      remaining.Nodup ∧
      (∀ other, other ∈ remaining ↔ (other ∈ linked ∧ network other = network entry) ∧ other ≠ entry) ∧
      Left index after entry remaining := by
  obtain ⟨entries, listed, inside⟩ := indexes.partitions.mem_list member
  obtain ⟨held, found, rfl⟩ := Option.map_eq_some_iff.mp listed
  have within : ∀ other ∈ held.entries, other ∈ linked := fun other otherIn =>
    ((indexes.partitions.exact _ _ listed other).mp otherIn).1
  obtain ⟨position, located, here⟩ := findIdx_same stamped within inside
  obtain ⟨distinct, others⟩ := swapRemove_same (indexes.partitions.nodup _ _ listed) here
  have fits : entry.pfx.len ≤ family.width := valid entry member
  have netMasked : Masked family (network entry) := normalized_masked fits
  have allMasked : ∀ other best, bestAt index other = some best → Masked family other :=
    fun other best => indexes.masked_of_best valid
  have key : held.pfx = network entry := ((indexes.keyed.find_eq_some_iff keyAgree).mp found).2
  have cachedAt : bestAt index (network entry) = held.best := by rw [bestAt, found]; rfl
  obtain ⟨best, bestIn, cached⟩ := indexes.best_mem _ _ listed
  have heldBest : held.best = some best := cachedAt.symm.trans cached
  have occupied : index.tree.root.get (radixPath (network entry).addr (network entry).len) = some best :=
    (indexes.tree _ _).mpr ⟨network entry, cached, rfl⟩
  have sameEntry : entry.same best = true ↔ best = entry := by
    rw [RouteEntry.same, beq_iff_eq]
    exact ⟨fun same => (stamped member (within best bestIn) same).symm, fun same => by rw [same]⟩
  have opened : remove index entry alloc =
      shrink index held entry (swapRemove held.entries position) alloc := by
    have group : groupFind index entry.pfx = some held := by
      rw [groupFind, if_neg (Nat.not_lt.mpr fits)]
      exact found
    rw [remove, group]
    simp only [located]
  generalize swapRemove held.entries position = remaining at opened distinct others
  have members : ∀ other, other ∈ remaining ↔
      (other ∈ linked ∧ network other = network entry) ∧ other ≠ entry := by
    intro other
    rw [others, indexes.partitions.exact _ _ listed]
  -- The three outcomes differ in what they write for the group; the rest of the index is the same.
  have conclude : ∀ (after : LpmIndex family) (record : Option (LpmEntry family.width)),
      Hashmap.Keyed hash LpmEntry.pfx after.groups →
      (∀ other, find after other = if other = network entry then record else find index other) →
      record.map LpmEntry.entries = (if remaining = [] then none else some remaining) →
      record.bind LpmEntry.best = (if best = entry then groupBest remaining else some best) →
      after.tree.root.Pruned → TreeMatches after.tree.root (bestAt after) →
      Indexes after (linked \ {entry}) ∧ Left index after entry remaining := by
    intro after record keyed lookups shrunk chosen pruned tree
    have left : Left index after entry remaining := by
      intro net
      rw [bestAt_of_find lookups]
      split
      · next same =>
          rw [chosen, same, cached]
          simp only [Option.some.injEq]
      · rfl
    refine ⟨⟨keyed, indexes.partitions.shrink listed distinct others fun net => ?_, ?_, pruned, tree⟩, left⟩
    · rw [listing_of_find lookups, shrunk]
    · intro net kept keptListed
      rw [listing_of_find lookups, shrunk] at keptListed
      rw [left]
      split_ifs at keptListed with same empty
      · cases keptListed
        rw [if_pos same, same, cached]
        by_cases wasBest : best = entry
        · rw [if_pos (by rw [wasBest])]
          rcases scan : groupBest remaining with _ | next
          · exact absurd (Preference.select_eq_none_iff.mp scan) empty
          · exact ⟨next, Preference.select_mem scan, rfl⟩
        · rw [if_neg (by simpa using wasBest)]
          exact ⟨best, (others best).mpr ⟨bestIn, wasBest⟩, rfl⟩
      · rw [if_neg same]
        exact indexes.best_mem net kept keptListed
  rw [opened, shrink]
  by_cases empty : remaining = []
  · have wasBest : best = entry := by
      by_contra different
      have stays := (others best).mpr ⟨bestIn, different⟩
      simp [empty] at stays
    rw [if_pos (by simp [empty])]
    obtain ⟨pruned, cleared⟩ := Radix.remove_occupied indexes.pruned netMasked.1
      (by rw [occupied]; exact Option.some_ne_none best)
    obtain ⟨keyed, lookups⟩ := find_groupRemove
      { index with tree := (index.tree.remove (network entry).addr (network entry).len).2 } indexes.keyed found
    rw [key]
    refine ⟨_, remaining, rfl, ?_⟩
    have result := conclude _ none keyed lookups (by simp [empty]) (by simp [wasBest, empty]; rfl) pruned
      (indexes.tree.write netMasked allMasked cleared (bestAt_of_find lookups))
    exact ⟨result.1, distinct, members, result.2⟩
  · rw [if_neg (by simpa using empty)]
    by_cases wasBest : best = entry
    · obtain ⟨next, scan⟩ : ∃ next, groupBest remaining = some next := by
        rcases scan : groupBest remaining with _ | next
        · exact absurd (Preference.select_eq_none_iff.mp scan) empty
        · exact ⟨next, rfl⟩
      have leaves : held.best.all entry.same = true := by
        rw [heldBest]
        exact sameEntry.mpr wasBest
      obtain ⟨tree, inserted, pruned, written⟩ :=
        Radix.insert_occupied indexes.pruned netMasked.1 occupied next alloc
      have grown := treeInsert_eq (update index (network entry) fun held =>
        { held with entries := remaining, best := some next }) inserted
      obtain ⟨keyed, lookups⟩ := find_update index indexes.keyed
        (fun held => { held with entries := remaining, best := some next }) (fun _ => rfl) found
      rw [if_pos leaves]
      simp only [scan, key, grown]
      refine ⟨_, remaining, rfl, ?_⟩
      have result := conclude { update index (network entry) (fun held =>
          { held with entries := remaining, best := some next }) with tree := tree }
        (some { held with entries := remaining, best := some next }) keyed lookups (by simp [empty])
        (by simp [wasBest, scan]) pruned
        (indexes.tree.write netMasked allMasked written (bestAt_of_find lookups))
      exact ⟨result.1, distinct, members, result.2⟩
    · have stays : held.best.all entry.same = false := by
        rw [heldBest, Option.all_some]
        rw [← Bool.not_eq_true, sameEntry]
        exact wasBest
      obtain ⟨keyed, lookups⟩ := find_update index indexes.keyed
        (fun held => { held with entries := remaining }) (fun _ => rfl) found
      rw [if_neg (by rw [stays]; simp), key]
      refine ⟨_, remaining, rfl, ?_⟩
      have sameBest : ∀ net, bestAt (update index (network entry) fun held =>
          { held with entries := remaining }) net = bestAt index net := by
        intro net
        rw [bestAt_of_find lookups]
        split
        · next same => rw [same, cachedAt]; rfl
        · rfl
      have result := conclude _ (some { held with entries := remaining }) keyed lookups (by simp [empty])
        (by simp [wasBest, heldBest]) indexes.pruned (by rw [funext sameBest]; exact indexes.tree)
      exact ⟨result.1, distinct, members, result.2⟩

end LpmIndex

end Libbgp
