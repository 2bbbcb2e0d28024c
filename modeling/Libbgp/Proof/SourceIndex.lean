import Mathlib.Data.Set.Function
import Libbgp.Library.Partition
import Libbgp.Construction.RibIndex
import Libbgp.Proof.Hashmap

namespace Libbgp

open Library

/-- Linked entries are told apart by their stamps. -/
def Stamped {width : Nat} (linked : Set (RouteEntry width)) : Prop :=
  Set.InjOn RouteEntry.stamp linked

section Arrays

variable {width : Nat} {linked : Set (RouteEntry width)} {entries : List (RouteEntry width)}
  {entry : RouteEntry width} {position : Nat}

/-- A linked entry is found in an array by its address. -/
theorem findIdx_same (stamped : Stamped linked) (inside : ∀ held ∈ entries, held ∈ linked)
    (member : entry ∈ entries) :
    ∃ position, entries.findIdx? entry.same = some position ∧ entries[position]? = some entry := by
  have hit : entry.same entry = true := by simp [RouteEntry.same]
  obtain ⟨position, found⟩ : ∃ position, entries.findIdx? entry.same = some position := by
    rcases search : entries.findIdx? entry.same with _ | position
    · rw [List.findIdx?_eq_none_iff] at search
      have := search entry member
      simp [hit] at this
    · exact ⟨position, rfl⟩
  refine ⟨position, found, ?_⟩
  obtain ⟨bound, matched, -⟩ := List.findIdx?_eq_some_iff_getElem.mp found
  rw [List.getElem?_eq_getElem bound]
  have inArray : entries[position] ∈ entries := List.getElem_mem bound
  have sameStamp : entry.stamp = entries[position].stamp := by simpa [RouteEntry.same] using matched
  rw [stamped (inside _ member) (inside _ inArray) sameStamp]

/-- Removal by address keeps exactly the other entries. -/
theorem swapRemove_same (distinct : entries.Nodup) (found : entries[position]? = some entry) :
    (swapRemove entries position).Nodup ∧
      ∀ other, other ∈ swapRemove entries position ↔ other ∈ entries ∧ other ≠ entry := by
  have split := perm_cons_swapRemove entries position entry found
  have whole := split.nodup_iff.mp distinct
  obtain ⟨absent, rest⟩ := List.nodup_cons.mp whole
  refine ⟨rest, fun other => ?_⟩
  rw [split.mem_iff, List.mem_cons]
  constructor
  · intro member
    exact ⟨.inr member, fun same => absent (same ▸ member)⟩
  · rintro ⟨same | member, different⟩
    · exact absurd same different
    · exact member

/-- An entry just appended is taken back by its address. -/
theorem swapRemove_concat_same (fresh : ∀ held ∈ entries, entry.same held = false)
    (found : (entries ++ [entry]).findIdx? entry.same = some position) :
    swapRemove (entries ++ [entry]) position = entries := by
  obtain ⟨bound, matched, -⟩ := List.findIdx?_eq_some_iff_getElem.mp found
  have last : position = entries.length := by
    by_contra early
    have inside : position < entries.length := by
      have : position < (entries ++ [entry]).length := bound
      simp only [List.length_append, List.length_singleton] at this
      omega
    rw [List.getElem_append_left inside] at matched
    rw [fresh _ (List.getElem_mem inside)] at matched
    exact Bool.noConfusion matched
  rw [swapRemove_concat, last]
  simp

end Arrays

namespace SourceIndex

variable {family : AddrFamily} {index after : SourceIndex family} {linked : Set (RouteEntry family.width)}
  {entry : RouteEntry family.width} {source : RouterId} {held : SourceEntry family.width}

theorem keyAgree : Hashmap.KeyAgree (@hash family) SourceEntry.sourceRouterId keyHash keyEq where
  hash_eq _ := rfl
  eq_iff wanted held := by simp [keyEq]

/-- The routes listed for a source; the capacity of the array is not part of it. -/
def listing (index : SourceIndex family) (source : RouterId) : Option (List (RouteEntry family.width)) :=
  (find index source).map SourceEntry.entries

/-- The index lists exactly the linked entries of each source and keeps no empty source. -/
structure Indexes (index : SourceIndex family) (linked : Set (RouteEntry family.width)) : Prop where
  keyed : Hashmap.Keyed hash SourceEntry.sourceRouterId index
  partitions : Partitions RouteEntry.source (listing index) linked

theorem init_indexes : Indexes (.init : SourceIndex family) ∅ := by
  refine ⟨Hashmap.init_keyed, Partitions.empty fun source => ?_⟩
  have missing : find (.init : SourceIndex family) source = none := by
    rw [find, Hashmap.init_keyed.find_eq_none_iff keyAgree]
    simp
  rw [listing, missing, Option.map_none]

/-- An update changes the listing of one source. -/
theorem listing_update (keyed : Hashmap.Keyed hash SourceEntry.sourceRouterId index)
    (change : SourceEntry family.width → SourceEntry family.width)
    (sameKey : ∀ held, (change held).sourceRouterId = held.sourceRouterId) (found : find index source = some held) :
    Hashmap.Keyed hash SourceEntry.sourceRouterId (update index source change) ∧
      ∀ other, listing (update index source change) other =
        if other = source then some (change held).entries else listing index other := by
  obtain ⟨keyed, lookups⟩ := keyed.update keyAgree change sameKey found
  refine ⟨keyed, fun other => ?_⟩
  have located : find (update index source change) other =
      if other = source then some (change held) else find index other := lookups other
  rw [listing, located]
  split <;> rfl

theorem listing_removeOne (keyed : Hashmap.Keyed hash SourceEntry.sourceRouterId index)
    (found : find index source = some held) :
    Hashmap.Keyed hash SourceEntry.sourceRouterId (drop index source) ∧
      ∀ other, listing (drop index source) other = if other = source then none else listing index other := by
  obtain ⟨keyed, lookups⟩ := keyed.removeOne keyAgree found
  refine ⟨keyed, fun other => ?_⟩
  have located : find (drop index source) other = if other = source then none else find index other :=
    lookups other
  rw [listing, located]
  split <;> rfl

/-- The listing after an entry has been appended under its source. -/
def Appended (index after : SourceIndex family) (entry : RouteEntry family.width) : Prop :=
  ∀ source, listing after source =
    if source = entry.source then some ((listing index source).getD [] ++ [entry]) else listing index source

/-- Adding an entry appends it to the listing of its source, or memory is refused and the listings stay. -/
theorem add_cases (indexes : Indexes index linked) (fresh : entry ∉ linked) (alloc : Allocator) :
    (∃ after rest, add index entry alloc = (.ok, after, rest) ∧ alloc.Spent rest ∧
      Indexes after (insert entry linked) ∧ Appended index after entry) ∨
    (∃ after rest, add index entry alloc = (.nomem, after, rest) ∧ alloc.Refused rest ∧
      Indexes after linked ∧ ∀ source, listing after source = listing index source) := by
  have extended : ∀ after, Hashmap.Keyed hash SourceEntry.sourceRouterId after → Appended index after entry →
      Indexes after (insert entry linked) := fun after keyed appended =>
    ⟨keyed, indexes.partitions.extend fresh appended⟩
  unfold add
  rcases found : find index entry.source with _ | held
  · rcases alloc.requests_cases 3 with ⟨rest, granted, spent⟩ | ⟨rest, denied, refused⟩
    · rw [granted]
      rcases indexes.keyed.insert_cases keyAgree ⟨entry.source, [entry], 1⟩ found rest with
        ⟨after, left, linkedIn, more, keyed, lookups⟩ | ⟨after, left, failed, more, keyed, lookups⟩
      · have appended : Appended index after entry := by
          intro source
          rw [listing, find, lookups source]
          split
          · next here =>
              have missing : listing index source = none := by
                rw [here, listing, found, Option.map_none]
              rw [missing]
              rfl
          · rfl
        exact .inl ⟨after, left, linkedIn, spent.trans more, extended after keyed appended, appended⟩
      · have same : ∀ source, listing after source = listing index source := by
          intro source
          rw [listing, find, lookups source]
          rfl
        refine .inr ⟨after, left, failed, spent.trans_refused more, ⟨keyed, ?_⟩, same⟩
        rw [funext same]
        exact indexes.partitions
    · rw [denied]
      exact .inr ⟨index, rest, rfl, refused, indexes, fun _ => rfl⟩
  · have appended : ∀ change : SourceEntry family.width → SourceEntry family.width,
        (∀ held, (change held).sourceRouterId = held.sourceRouterId) →
        (change held).entries = held.entries ++ [entry] →
        Indexes (update index entry.source change) (insert entry linked) ∧
          Appended index (update index entry.source change) entry := by
      intro change sameKey grown
      obtain ⟨keyed, lookups⟩ := listing_update indexes.keyed change sameKey found
      have shape : Appended index (update index entry.source change) entry := by
        intro source
        rw [lookups source, grown]
        split
        · next here => rw [here, listing, found]; rfl
        · rfl
      exact ⟨extended _ keyed shape, shape⟩
    dsimp only
    split
    · rcases alloc.request_cases with ⟨rest, granted, spent⟩ | ⟨rest, denied, refused⟩
      · rw [granted]
        exact .inl ⟨_, rest, rfl, spent, appended _ (fun _ => rfl) rfl⟩
      · rw [denied]
        exact .inr ⟨index, rest, rfl, refused, indexes, fun _ => rfl⟩
    · exact .inl ⟨_, alloc, rfl, .refl _, appended _ (fun _ => rfl) rfl⟩

/-- Removing a linked entry swaps it out of the listing of its source. -/
theorem listing_remove (keyed : Hashmap.Keyed hash SourceEntry.sourceRouterId index)
    {entries : List (RouteEntry family.width)} {position : Nat} (listed : listing index entry.source = some entries)
    (located : entries.findIdx? entry.same = some position) :
    Hashmap.Keyed hash SourceEntry.sourceRouterId (remove index entry) ∧
      ∀ source, listing (remove index entry) source =
        if source = entry.source then
          (if swapRemove entries position = [] then none else some (swapRemove entries position))
        else listing index source := by
  obtain ⟨held, found, rfl⟩ := Option.map_eq_some_iff.mp listed
  by_cases empty : swapRemove held.entries position = []
  · have shape : remove index entry = drop index entry.source := by
      simp only [remove, found, located, empty, List.isEmpty_nil, if_true]
      rfl
    rw [shape]
    simpa only [empty, if_true] using listing_removeOne keyed found
  · have shape : remove index entry = update index entry.source fun held =>
        { held with entries := swapRemove held.entries position } := by
      simp only [remove, found, located, List.isEmpty_iff, empty, if_false]
    rw [shape]
    simpa only [empty, if_false] using listing_update keyed
      (fun held => { held with entries := swapRemove held.entries position }) (fun _ => rfl) found

theorem remove_indexes (indexes : Indexes index linked) (stamped : Stamped linked) (member : entry ∈ linked) :
    Indexes (remove index entry) (linked \ {entry}) := by
  obtain ⟨entries, listed, inside⟩ := indexes.partitions.mem_list member
  have within : ∀ held ∈ entries, held ∈ linked := fun held held_in =>
    ((indexes.partitions.exact _ _ listed held).mp held_in).1
  obtain ⟨position, located, here⟩ := findIdx_same stamped within inside
  obtain ⟨distinct, others⟩ := swapRemove_same (indexes.partitions.nodup _ _ listed) here
  obtain ⟨keyed, lookups⟩ := listing_remove indexes.keyed listed located
  exact ⟨keyed, indexes.partitions.shrink listed distinct others lookups⟩

/-- Taking back an entry that was just added restores every listing. -/
theorem listing_remove_appended (indexes : Indexes index linked) (fresh : ∀ held ∈ linked, entry.same held = false)
    (keyed : Hashmap.Keyed hash SourceEntry.sourceRouterId after) (appended : Appended index after entry)
    (source : RouterId) : listing (remove after entry) source = listing index source := by
  have listed : listing after entry.source = some ((listing index entry.source).getD [] ++ [entry]) := by
    rw [appended, if_pos rfl]
  have unmatched : ∀ held ∈ (listing index entry.source).getD [], entry.same held = false := fun held inside =>
    fresh held ((indexes.partitions.mem_getD _ held).mp inside).1
  obtain ⟨position, located⟩ : ∃ position,
      ((listing index entry.source).getD [] ++ [entry]).findIdx? entry.same = some position := by
    rcases search : ((listing index entry.source).getD [] ++ [entry]).findIdx? entry.same with _ | position
    · rw [List.findIdx?_eq_none_iff] at search
      simpa [RouteEntry.same] using search entry (by simp)
    · exact ⟨position, rfl⟩
  obtain ⟨-, lookups⟩ := listing_remove keyed listed located
  rw [lookups, swapRemove_concat_same unmatched located]
  by_cases here : source = entry.source
  · subst here
    rw [if_pos rfl]
    rcases old : listing index entry.source with _ | entries
    · simp
    · simpa using indexes.partitions.nonempty _ _ old
  · rw [if_neg here, appended, if_neg here]

/-- Dropping a source removes exactly its entries. -/
theorem drop_indexes (indexes : Indexes index linked) (found : find index source = some held) :
    Indexes (drop index source) {entry | entry ∈ linked ∧ entry.source ≠ source} := by
  obtain ⟨keyed, lookups⟩ := listing_removeOne indexes.keyed found
  exact ⟨keyed, indexes.partitions.drop lookups⟩

end SourceIndex

end Libbgp
