import Libbgp.Proof.RouteOrder
import Libbgp.Proof.RibRun

namespace Libbgp

open Library

theorem entryBetter_asymmetric {width : Nat} : Preference.Asymmetric (@entryBetter width) :=
  fun a b => ribBetter_asymmetric a.route b.route

namespace RibImpl

variable {family : AddrFamily} {rib after : RibImpl family} {entry : RouteEntry family.width}
  {net : Prefix family.width} {route : Route family.width}

namespace Cache

variable {before after : Cache family}

/-- The entries of one network. -/
def group (cache : Cache family) (net : Prefix family.width) : Set (RouteEntry family.width) :=
  {entry | entry ∈ cache.linked ∧ LpmIndex.network entry = net}

/-- Every cached best route is an unbeaten member of its group. -/
def Optimal (cache : Cache family) : Prop :=
  ∀ net best, cache.best net = some best →
    best ∈ cache.group net ∧ Preference.Unbeaten entryBetter (cache.group net) best

theorem Leave.group_subset (leave : Leave before after) (net : Prefix family.width) :
    after.group net ⊆ before.group net := by
  obtain ⟨entry, -, linked, -⟩ := leave
  rintro other ⟨member, same⟩
  rw [linked] at member
  exact ⟨member.1, same⟩

/-- A group that loses a member keeps its best, or is scanned again when that was the best. -/
theorem Leave.best_cases (leave : Leave before after)
    (placed : ∀ net best, before.best net = some best → best ∈ before.group net) {net : Prefix family.width}
    {best : RouteEntry family.width} (cached : after.best net = some best) :
    (before.best net = some best ∧ best ∈ after.group net) ∨
      ∃ remaining : List (RouteEntry family.width), {other | other ∈ remaining} = after.group net ∧
        Preference.select entryBetter remaining = some best := by
  obtain ⟨entry, member, linked, remaining, -, others, chosen⟩ := leave
  have stays : before.best net = some best → best ≠ entry → best ∈ after.group net := by
    intro held different
    refine ⟨?_, (placed net best held).2⟩
    rw [linked]
    exact ⟨(placed net best held).1, different⟩
  rw [chosen] at cached
  by_cases here : net = LpmIndex.network entry
  · rw [if_pos here] at cached
    by_cases left : before.best net = some entry
    · rw [if_pos left] at cached
      refine .inr ⟨remaining, ?_, cached⟩
      ext other
      rw [Set.mem_ofPred_eq, others]
      change _ ↔ other ∈ after.linked ∧ LpmIndex.network other = net
      rw [linked, here, Set.mem_sdiff, Set.mem_singleton_iff]
      tauto
    · rw [if_neg left] at cached
      exact .inl ⟨cached, stays cached fun same => left (same ▸ cached)⟩
  · rw [if_neg here] at cached
    refine .inl ⟨cached, stays cached fun same => here ?_⟩
    rw [← (placed net best cached).2, same]

/-- Without cycles the best of a group that loses a member is still unbeaten. -/
theorem Leave.optimal (leave : Leave before after) (optimal : before.Optimal)
    (decisive : ∀ net, Preference.Decisive entryBetter (after.group net))
    (acyclic : ∀ net, Preference.Acyclic entryBetter (after.group net)) : after.Optimal := by
  intro net best cached
  have placed := fun net best held => (optimal net best held).1
  rcases leave.best_cases placed cached with ⟨held, inside⟩ | ⟨remaining, whole, selected⟩
  · exact ⟨inside, (optimal net best held).2.mono (leave.group_subset net)⟩
  · refine ⟨whole ▸ Preference.select_mem selected, ?_⟩
    rw [← whole]
    refine Preference.select_unbeaten entryBetter_asymmetric ?_ ?_ selected
    · exact whole ▸ decisive net
    · exact whole ▸ acyclic net

/-- Whole sources may leave one entry after the other. -/
theorem Shrinks.optimal (shrinks : Shrinks before after) (optimal : before.Optimal)
    (decisive : ∀ net, Preference.Decisive entryBetter (before.group net))
    (acyclic : ∀ net, Preference.Acyclic entryBetter (before.group net)) :
    after.Optimal ∧ ∀ net, after.group net ⊆ before.group net := by
  induction shrinks with
  | refl => exact ⟨optimal, fun net => Set.Subset.rfl⟩
  | tail _ leave ih =>
    have subset := fun net => (leave.group_subset net).trans (ih.2 net)
    exact ⟨leave.optimal ih.1 (fun net => (decisive net).mono (subset net))
      (fun net => (acyclic net).mono (subset net)), subset⟩

end Cache

section

variable (attached : Attached rib after entry)

include attached

/-- An attached entry joins the group of its network. -/
theorem Attached.group_own :
    after.cache.group (LpmIndex.network entry) =
      Insert.insert entry (rib.cache.group (LpmIndex.network entry)) := by
  ext other
  change other ∈ after.linked ∧ _ ↔ other = entry ∨ (other ∈ rib.linked ∧ _)
  rw [attached.linked_eq, Set.mem_insert_iff]
  constructor
  · rintro ⟨rfl | member, same⟩
    · exact .inl rfl
    · exact .inr ⟨member, same⟩
  · rintro (rfl | ⟨member, same⟩)
    · exact ⟨.inl rfl, rfl⟩
    · exact ⟨.inr member, same⟩

/-- The other groups stay as they were. -/
theorem Attached.group_foreign (elsewhere : net ≠ LpmIndex.network entry) :
    after.cache.group net = rib.cache.group net := by
  ext other
  change other ∈ after.linked ∧ _ ↔ other ∈ rib.linked ∧ _
  rw [attached.linked_eq, Set.mem_insert_iff]
  constructor
  · rintro ⟨rfl | member, same⟩
    · exact absurd same.symm elsewhere
    · exact ⟨member, same⟩
  · exact fun inside => ⟨.inr inside.1, inside.2⟩

/-- A linked entry is the first of its group, or challenges the cached best. -/
theorem Attached.best_cases (indexes : rib.lpm.Indexes rib.linked)
    {best : RouteEntry family.width} (cached : after.lpm.bestAt net = some best) :
    (net ≠ LpmIndex.network entry ∧ rib.lpm.bestAt net = some best) ∨
    (net = LpmIndex.network entry ∧ rib.cache.group net = ∅ ∧ best = entry) ∨
    (net = LpmIndex.network entry ∧ ∃ previous, rib.lpm.bestAt net = some previous ∧
      best = if entryBetter entry previous then entry else previous) := by
  rw [attached.best net] at cached
  by_cases here : net = LpmIndex.network entry
  · subst here
    rw [if_pos rfl] at cached
    rcases held : rib.lpm.bestAt (LpmIndex.network entry) with _ | previous
    · rw [held] at cached
      cases cached
      refine .inr (.inl ⟨rfl, Set.eq_empty_of_forall_notMem ?_, rfl⟩)
      rintro other ⟨member, same⟩
      obtain ⟨first, found⟩ := indexes.exists_bestAt member
      rw [same, held] at found
      cases found
    · rw [held] at cached
      refine .inr (.inr ⟨rfl, previous, rfl, ?_⟩)
      by_cases wins : entryBetter entry previous = true
      · simp only [Option.all_some, wins, if_true, Option.some.injEq] at cached ⊢
        exact cached.symm
      · simp only [Option.all_some, wins, Bool.false_eq_true, if_false, Option.some.injEq] at cached ⊢
        exact cached.symm
  · rw [if_neg here] at cached
    exact .inl ⟨here, cached⟩

/-- The winner of the challenge is unbeaten. -/
theorem Attached.optimal (optimal : rib.cache.Optimal)
    (decisive : Preference.Decisive entryBetter (rib.cache.group (LpmIndex.network entry)))
    (acyclic : Preference.Acyclic entryBetter
      (Insert.insert entry (rib.cache.group (LpmIndex.network entry))))
    (indexes : rib.lpm.Indexes rib.linked) : after.cache.Optimal := by
  intro net best cached
  rcases attached.best_cases indexes cached with ⟨elsewhere, held⟩ | ⟨rfl, empty, rfl⟩ | ⟨rfl, previous, held, winner⟩
  · rw [attached.group_foreign elsewhere]
    exact optimal net best held
  · rw [attached.group_own, empty]
    refine ⟨.inl rfl, ?_⟩
    rintro other (rfl | impossible)
    · by_contra self
      rw [Bool.not_eq_false] at self
      rw [entryBetter_asymmetric _ _ self] at self
      exact Bool.noConfusion self
    · exact absurd impossible (Set.notMem_empty other)
  · obtain ⟨previousIn, unbeaten⟩ := optimal _ _ held
    have challenged := unbeaten.challenge entryBetter_asymmetric decisive acyclic previousIn
    rw [attached.group_own, winner]
    refine ⟨?_, challenged⟩
    split
    · exact .inl rfl
    · exact .inr previousIn

end

/-- The stored routes of one prefix. -/
def routesOf (rib : RibImpl family) (pfx : Prefix family.width) : Set (Route family.width) :=
  {route | ∃ entry ∈ rib.linked, entry.pfx = pfx ∧ entry.route = route}

/-- Linking this route closes no preference cycle among the stored routes of its prefix, which has
no host bits. -/
def Harmless (rib : RibImpl family) (route : Route family.width) : Prop :=
  Masked family route.pfx ∧ Preference.Acyclic ribBetter (Insert.insert route (rib.routesOf route.pfx))

/-- Prefixes have no host bits, no group has a preference cycle, and the cached routes are the best. -/
structure Settled (rib : RibImpl family) : Prop where
  invariant : Invariant rib
  masked : ∀ entry ∈ rib.linked, Masked family entry.pfx
  acyclic : ∀ net, Preference.Acyclic entryBetter (rib.cache.group net)
  optimal : rib.cache.Optimal

theorem init_settled : Settled (init family) where
  invariant := init_invariant
  masked entry member := by simp [linked, init] at member
  acyclic net a member := by simp [Cache.group, cache, linked, init] at member
  optimal net best cached := by
    change (LpmIndex.init family).bestAt net = some best at cached
    rw [LpmIndex.bestAt, LpmIndex.find_init] at cached
    cases cached

/-- Where prefixes have no host bits, the entries of a network have exactly this prefix. -/
theorem network_eq_pfx (masked : ∀ entry ∈ rib.linked, Masked family entry.pfx) (member : entry ∈ rib.linked) :
    LpmIndex.network entry = entry.pfx :=
  (masked entry member).2

/-- Different entries of one network have different sources. -/
theorem group_decisive (invariant : Invariant rib) (masked : ∀ entry ∈ rib.linked, Masked family entry.pfx)
    (net : Prefix family.width) : Preference.Decisive entryBetter (rib.cache.group net) := by
  rintro a ⟨aIn, aNet⟩ b ⟨bIn, bNet⟩ different
  apply ribBetter_decisive
  intro sameSource
  have samePrefix : a.pfx = b.pfx := by
    rw [← network_eq_pfx masked aIn, ← network_eq_pfx masked bIn, aNet, bNet]
  exact different (invariant.unique.eq_of_key aIn bIn (Prod.ext sameSource samePrefix))

/-- A harmless route leaves its group without a cycle. -/
theorem Harmless.acyclic (harmless : Harmless rib route) (masked : ∀ entry ∈ rib.linked, Masked family entry.pfx)
    (same : entry.route = route) :
    Preference.Acyclic entryBetter (Insert.insert entry (rib.cache.group (LpmIndex.network entry))) := by
  subst same
  refine harmless.2.comap ?_
  rintro other (rfl | ⟨member, sameNetwork⟩)
  · exact .inl rfl
  · refine .inr ⟨other, member, ?_, rfl⟩
    rw [← network_eq_pfx masked member, sameNetwork]
    exact harmless.1.2

/-- Linking a harmless route keeps everything but the uniqueness of keys. -/
theorem Attached.settled (attached : Attached rib after entry) (settled : Settled rib)
    (harmless : Harmless rib route) (same : entry.route = route) :
    (∀ held ∈ after.linked, Masked family held.pfx) ∧
      (∀ net, Preference.Acyclic entryBetter (after.cache.group net)) ∧ after.cache.Optimal := by
  have acyclic := harmless.acyclic settled.masked same
  refine ⟨fun held member => ?_, fun net => ?_, ?_⟩
  · rw [attached.linked_eq] at member
    rcases member with rfl | old
    · subst same
      exact harmless.1
    · exact settled.masked held old
  · by_cases here : net = LpmIndex.network entry
    · rw [here, attached.group_own]
      exact acyclic
    · rw [attached.group_foreign here]
      exact settled.acyclic net
  · exact attached.optimal settled.optimal (group_decisive settled.invariant settled.masked _) acyclic
      settled.invariant.lpm

/-- Every operation that links only harmless routes keeps the cached routes the best ones. -/
theorem Effect.settled {touched : RouterId → Prefix family.width → Prop} {adds : Route family.width → Prop}
    (effect : Effect touched adds rib after) (settled : Settled rib)
    (harmless : ∀ route, adds route → Harmless rib route) : Settled after := by
  cases effect with
  | same invariant contents =>
    have unchanged : after.cache = rib.cache := by
      simp only [cache, contents.linked_eq, funext contents.best]
    refine ⟨invariant, ?_, unchanged ▸ settled.acyclic, unchanged ▸ settled.optimal⟩
    rw [contents.linked_eq]
    exact settled.masked
  | stored route own added result =>
    obtain ⟨middle, attached, outcome⟩ := result.middle
    obtain ⟨masked, acyclic, optimal⟩ := attached.settled settled (harmless _ added) rfl
    rcases outcome with ⟨-, rfl⟩ | ⟨old, found, detached⟩
    · exact ⟨result.invariant, masked, acyclic, optimal⟩
    · have oldIn : old ∈ middle.linked := by
        rw [attached.linked_eq]
        exact .inr (find_some found).1
      have leave := detached.leave oldIn
      have afterMasked : ∀ held ∈ after.linked, Masked family held.pfx := fun held member => by
        rw [detached.linked_eq] at member
        exact masked held member.1
      have afterAcyclic := fun net => (acyclic net).mono (leave.group_subset net)
      exact ⟨result.invariant, afterMasked, afterAcyclic,
        leave.optimal optimal (group_decisive result.invariant afterMasked) afterAcyclic⟩
  | detached held member own result =>
    have invariant := settled.invariant.detached result
    have leave := result.leave member
    have masked : ∀ other ∈ after.linked, Masked family other.pfx := fun other inside => by
      rw [result.linked_eq] at inside
      exact settled.masked other inside.1
    have acyclic := fun net => (settled.acyclic net).mono (leave.group_subset net)
    exact ⟨invariant, masked, acyclic,
      leave.optimal settled.optimal (group_decisive invariant masked) acyclic⟩
  | attached route own added invariant result =>
    obtain ⟨masked, acyclic, optimal⟩ := result.settled settled (harmless _ added) rfl
    exact ⟨invariant, masked, acyclic, optimal⟩
  | discarded source own result =>
    obtain ⟨optimal, subset⟩ := result.shrinks.optimal settled.optimal
      (group_decisive settled.invariant settled.masked) settled.acyclic
    refine ⟨result.invariant, fun held member => ?_, fun net => (settled.acyclic net).mono (subset net), optimal⟩
    rw [result.linked_eq] at member
    exact settled.masked held member.1

end RibImpl

end Libbgp
