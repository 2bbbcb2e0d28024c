/-
What the discard that reports its changes removes and reports.
-/

import Libbgp.Proof.RibTracked

namespace Libbgp

open Library

namespace RibImpl

variable {family : AddrFamily} {rib after : RibImpl family} {source : RouterId} {pfx : Prefix family.width}

/-- The best route of a prefix was learned from this source. -/
def Leads (rib : RibImpl family) (source : RouterId) (pfx : Prefix family.width) : Prop :=
  ∃ best, rib.bestExact pfx = some best ∧ best.source = source

/-- The scan for affected prefixes runs out of memory or lists them all. -/
theorem activePrefixes_cases (rib : RibImpl family) (source : RouterId) (entries : List (RouteEntry family.width))
    (count cap : Nat) (alloc : Allocator) :
    (∃ rest, rib.activePrefixes source count cap alloc entries =
      (.ok, (entries.filter fun entry => entry.source == source && (rib.bestExact entry.pfx).any entry.same).map
        RouteEntry.pfx, rest) ∧ alloc.Spent rest) ∨
    (∃ active rest, rib.activePrefixes source count cap alloc entries = (.nomem, active, rest) ∧
      alloc.Refused rest) := by
  induction entries generalizing count cap alloc with
  | nil => exact .inl ⟨alloc, rfl, .refl alloc⟩
  | cons entry rest ih =>
    by_cases active : (entry.source == source && (rib.bestExact entry.pfx).any entry.same) = true
    · rcases reserveOne_cases count cap alloc with ⟨wide, left, granted, spent⟩ | ⟨left, denied, refused⟩
      · rcases ih (count + 1) wide left with ⟨last, done, more⟩ | ⟨listed, last, failed, more⟩
        · exact .inl ⟨last, by simp [activePrefixes, active, granted, done], spent.trans more⟩
        · exact .inr ⟨entry.pfx :: listed, last, by simp [activePrefixes, active, granted, failed],
            spent.trans_refused more⟩
      · exact .inr ⟨[], left, by simp [activePrefixes, active, denied], refused⟩
    · have inactive := Bool.eq_false_iff.mpr active
      rcases ih count cap alloc with ⟨last, done, more⟩ | ⟨listed, last, failed, more⟩
      · exact .inl ⟨last, by simp [activePrefixes, inactive, done], more⟩
      · exact .inr ⟨listed, last, by simp [activePrefixes, inactive, failed], more⟩

/-- Sorting the affected prefixes runs out of memory or reports each of them. -/
theorem collectChanges_cases (rib : RibImpl family) (prefixes : List (Prefix family.width))
    (withdrawnCount withdrawnCap replacedCount replacedCap : Nat) (alloc : Allocator) :
    (∃ rest, rib.collectChanges withdrawnCount withdrawnCap replacedCount replacedCap alloc prefixes =
      (.ok, ⟨prefixes.filter fun pfx => (rib.bestExact pfx).isNone,
        prefixes.filterMap fun pfx => (rib.bestExact pfx).map RouteEntry.route⟩, rest) ∧ alloc.Spent rest) ∨
    (∃ result rest, rib.collectChanges withdrawnCount withdrawnCap replacedCount replacedCap alloc prefixes =
      (.nomem, result, rest) ∧ alloc.Refused rest) := by
  induction prefixes generalizing withdrawnCount withdrawnCap replacedCount replacedCap alloc with
  | nil => exact .inl ⟨alloc, rfl, .refl alloc⟩
  | cons pfx rest ih =>
    rcases best : rib.bestExact pfx with _ | held
    · rcases reserveOne_cases withdrawnCount withdrawnCap alloc with
        ⟨wide, left, granted, spent⟩ | ⟨left, denied, refused⟩
      · rcases ih (withdrawnCount + 1) wide replacedCount replacedCap left with
          ⟨last, done, more⟩ | ⟨result, last, failed, more⟩
        · exact .inl ⟨last, by simp [collectChanges, best, granted, done], spent.trans more⟩
        · exact .inr ⟨{ result with withdrawn := pfx :: result.withdrawn }, last,
            by simp only [collectChanges, best, granted, failed], spent.trans_refused more⟩
      · exact .inr ⟨⟨[], []⟩, left, by simp only [collectChanges, best, denied], refused⟩
    · rcases reserveOne_cases replacedCount replacedCap alloc with
        ⟨wide, left, granted, spent⟩ | ⟨left, denied, refused⟩
      · rcases snapshotClone_cases held.route left with ⟨copied, clone, more⟩ | ⟨copied, clone, more⟩
        · rcases ih withdrawnCount withdrawnCap (replacedCount + 1) wide copied with
            ⟨last, done, tail⟩ | ⟨result, last, failed, tail⟩
          · exact .inl ⟨last, by simp [collectChanges, best, granted, clone, done], (spent.trans more).trans tail⟩
          · exact .inr ⟨{ result with replacements := held.route :: result.replacements }, last,
              by simp only [collectChanges, best, granted, clone, failed],
              (spent.trans more).trans_refused tail⟩
        · exact .inr ⟨⟨[], []⟩, copied, by simp only [collectChanges, best, granted, clone], spent.trans_refused more⟩
      · exact .inr ⟨⟨[], []⟩, left, by simp only [collectChanges, best, denied], refused⟩

/-- What a complete report says: the prefixes that the source led, each once, as lost or as replaced. -/
structure DiscardReport (rib after : RibImpl family) (source : RouterId) (result : DiscardResult family.width) :
    Prop where
  listed : ∃ active : List (Prefix family.width), active.Nodup ∧ (∀ pfx, pfx ∈ active ↔ rib.Leads source pfx) ∧
    result.withdrawn = active.filter (fun pfx => (after.bestExact pfx).isNone) ∧
    result.replacements = active.filterMap fun pfx => (after.bestExact pfx).map RouteEntry.route

/-- The prefixes that a source leads, each once. -/
theorem active_spec (invariant : Invariant rib) (source : RouterId) :
    let active := ((rib.sourceEntries source).filter fun entry =>
      entry.source == source && (rib.bestExact entry.pfx).any entry.same).map RouteEntry.pfx
    active.Nodup ∧ ∀ pfx, pfx ∈ active ↔ rib.Leads source pfx := by
  have listed : ∀ entry, entry ∈ rib.sourceEntries source ↔ entry ∈ rib.linked ∧ entry.source = source :=
    invariant.sources.partitions.mem_getD source
  have distinct : (rib.sourceEntries source).Nodup := by
    unfold sourceEntries
    rcases found : rib.sources.find source with _ | held
    · exact List.nodup_nil
    · exact invariant.sources.partitions.nodup source held.entries (by rw [SourceIndex.listing, found]; rfl)
  refine ⟨?_, fun pfx => ?_⟩
  · refine (distinct.filter _).map_on fun first firstIn second secondIn same => ?_
    have firstLinked := (listed first).mp (List.mem_filter.mp firstIn).1
    have secondLinked := (listed second).mp (List.mem_filter.mp secondIn).1
    have found := invariant.find_eq_some_iff.mpr ⟨firstLinked.1, firstLinked.2, rfl⟩
    have other := invariant.find_eq_some_iff.mpr ⟨secondLinked.1, secondLinked.2, same.symm⟩
    exact Option.some.inj (found.symm.trans other)
  · rw [List.mem_map]
    constructor
    · rintro ⟨entry, chosen, rfl⟩
      obtain ⟨member, passes⟩ := List.mem_filter.mp chosen
      rw [Bool.and_eq_true, beq_iff_eq, Option.any_eq_true_iff_get] at passes
      obtain ⟨own, some, same⟩ := passes
      have best := Option.eq_some_of_isSome some
      have exactIn := bestExact_mem invariant best
      -- The stamps tell entries apart, so the best route is this very entry.
      have equal : entry = (rib.bestExact entry.pfx).get some :=
        List.inj_on_of_nodup_map invariant.stamps ((listed entry).mp member).1 exactIn.1
          (by simpa [RouteEntry.same] using same)
      exact ⟨_, best, by rw [← equal]; exact own⟩
    · rintro ⟨best, found, own⟩
      obtain ⟨linked, place⟩ := bestExact_mem invariant found
      refine ⟨best, List.mem_filter.mpr ⟨(listed best).mpr ⟨linked, own⟩, ?_⟩, place⟩
      simp [own, place, found, RouteEntry.same]

/-- The reporting discard reports everything, or it runs out of memory before or after the removal. -/
theorem discardCollect_cases (invariant : Invariant rib) (source : RouterId) (alloc : Allocator) :
    (∃ result after rest, rib.discardCollect source alloc = (.ok, result, after, rest) ∧ alloc.Spent rest ∧
      Discarded rib after source ∧ DiscardReport rib after source result) ∨
    (∃ result after rest, rib.discardCollect source alloc = (.nomem, result, after, rest) ∧ alloc.Refused rest ∧
      (after = rib ∨ Discarded rib after source)) := by
  obtain ⟨distinct, leads⟩ := active_spec invariant source
  rcases activePrefixes_cases rib source (rib.sourceEntries source) 0 0 alloc with
    ⟨rest, listed, spent⟩ | ⟨active, rest, failed, refused⟩
  · obtain ⟨after, removed, discarded⟩ := removeSource_spec invariant source rest
    rcases collectChanges_cases after (((rib.sourceEntries source).filter fun entry =>
        entry.source == source && (rib.bestExact entry.pfx).any entry.same).map RouteEntry.pfx) 0 0 0 0 rest with
      ⟨left, done, more⟩ | ⟨result, left, failed, more⟩
    · refine .inl ⟨⟨_, _⟩, after, left, ?_, spent.trans more, discarded, ⟨_, distinct, leads, rfl, rfl⟩⟩
      simp only [discardCollect, listed, removed, done]
    · exact .inr ⟨⟨[], []⟩, after, left, by simp only [discardCollect, listed, removed, failed],
        spent.trans_refused more, .inr discarded⟩
  · exact .inr ⟨⟨[], []⟩, rib, rest, by simp only [discardCollect, failed], refused, .inl rfl⟩

/-- A discard takes out the routes of one source. -/
theorem Discarded.routeAt_own (discarded : Discarded rib after source) : after.routeAt source pfx = none := by
  rw [routeAt_eq_none_iff, discarded.invariant.find_eq_none_iff]
  intro entry member
  rw [discarded.linked_eq] at member
  exact fun place => member.2 place.1

/-- Discarding a peer keeps the routes of the others. -/
theorem Discarded.routeAt_other (discarded : Discarded rib after source) (invariant : Invariant rib)
    {other : RouterId} (different : other ≠ source) : after.routeAt other = rib.routeAt other := by
  funext pfx
  refine Option.ext fun route => ?_
  rw [discarded.invariant.routeAt_eq_some_iff, invariant.routeAt_eq_some_iff]
  constructor
  · rintro ⟨entry, member, own, place⟩
    rw [discarded.linked_eq] at member
    exact ⟨entry, member.1, own, place⟩
  · rintro ⟨entry, member, own, place⟩
    refine ⟨entry, ?_, own, place⟩
    rw [discarded.linked_eq]
    exact ⟨member, by rw [own]; exact different⟩

theorem Discarded.trans_same (discarded : Discarded rib after source) {later : RibImpl family}
    (again : Discarded after later source) : Discarded rib later source where
  invariant := again.invariant
  linked_eq := by
    rw [again.linked_eq, discarded.linked_eq]
    ext entry
    simp
  shrinks := discarded.shrinks.trans again.shrinks

end RibImpl

end Libbgp
