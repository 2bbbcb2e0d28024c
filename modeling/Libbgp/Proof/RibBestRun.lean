import Libbgp.Proof.RibBest

namespace Libbgp

open Library

variable {af : Af} {steps : List (RibOp af × Allocator)} {family : AddrFamily}

namespace RibImpl

variable {family : AddrFamily} {rib : RibImpl family} {entry best : RouteEntry family.width}
  {pfx : Prefix family.width}

/-- The stored entries of exactly one prefix. -/
def exact (rib : RibImpl family) (pfx : Prefix family.width) : Set (RouteEntry family.width) :=
  {entry | entry ∈ rib.linked ∧ entry.pfx = pfx}

section

variable (invariant : Invariant rib)

include invariant

/-- The rescan looks at exactly the stored routes of its prefix. -/
theorem mem_scan_iff :
    entry ∈ (rib.routes.moduloChain (family.hash pfx)).filter (fun entry =>
      routeHash entry == family.hash pfx && entry.pfx == pfx) ↔ entry ∈ rib.exact pfx := by
  rw [List.mem_filter]
  constructor
  · rintro ⟨member, same⟩
    simp only [Bool.and_eq_true, beq_iff_eq] at same
    exact ⟨Hashmap.mem_entries_of_mem_moduloChain member, same.2⟩
  · rintro ⟨member, rfl⟩
    refine ⟨invariant.wf.mem_moduloChain member, ?_⟩
    simp [routeHash]

theorem exact_decisive (pfx : Prefix family.width) : Preference.Decisive entryBetter (rib.exact pfx) := by
  rintro a ⟨aIn, aPrefix⟩ b ⟨bIn, bPrefix⟩ different
  apply ribBetter_decisive
  intro sameSource
  exact different (invariant.unique.eq_of_key aIn bIn (Prod.ext sameSource (aPrefix.trans bPrefix.symm)))

theorem bestExact_mem (found : rib.bestExact pfx = some best) : best ∈ rib.exact pfx :=
  (mem_scan_iff invariant).mp (Preference.select_mem found)

theorem bestExact_eq_none_iff : rib.bestExact pfx = none ↔ rib.exact pfx = ∅ := by
  rw [bestExact, Preference.select_eq_none_iff, Set.eq_empty_iff_forall_notMem, List.eq_nil_iff_forall_not_mem]
  exact forall_congr' fun entry => not_congr (mem_scan_iff invariant)

/-- Without a preference cycle the rescan finds the one unbeaten route. -/
theorem bestExact_eq_some_iff (acyclic : Preference.Acyclic entryBetter (rib.exact pfx)) :
    rib.bestExact pfx = some best ↔
      best ∈ rib.exact pfx ∧ Preference.Unbeaten entryBetter (rib.exact pfx) best := by
  have whole : {entry | entry ∈ (rib.routes.moduloChain (family.hash pfx)).filter fun entry =>
      routeHash entry == family.hash pfx && entry.pfx == pfx} = rib.exact pfx :=
    Set.ext fun entry => mem_scan_iff invariant
  have decisive := exact_decisive invariant pfx
  have forward : ∀ held, rib.bestExact pfx = some held →
      held ∈ rib.exact pfx ∧ Preference.Unbeaten entryBetter (rib.exact pfx) held := by
    intro held found
    refine ⟨bestExact_mem invariant found, ?_⟩
    rw [← whole] at decisive acyclic ⊢
    exact Preference.select_unbeaten entryBetter_asymmetric decisive acyclic found
  constructor
  · exact forward best
  · rintro ⟨member, unbeaten⟩
    rcases found : rib.bestExact pfx with _ | held
    · rw [(bestExact_eq_none_iff invariant).mp found] at member
      exact absurd member (Set.notMem_empty best)
    · obtain ⟨heldIn, heldUnbeaten⟩ := forward held found
      rw [heldUnbeaten.unique decisive unbeaten heldIn member]

end

namespace Settled

theorem exact_eq_group (settled : Settled rib) (pfx : Prefix family.width) : rib.exact pfx = rib.cache.group pfx := by
  ext entry
  refine and_congr_right fun member => ?_
  rw [network_eq_pfx settled.masked member]

/-- A settled table caches the route that the rescan finds. -/
theorem bestAt_eq_bestExact (settled : Settled rib) (pfx : Prefix family.width) :
    rib.lpm.bestAt pfx = rib.bestExact pfx := by
  have acyclic := settled.acyclic pfx
  rw [← settled.exact_eq_group] at acyclic
  rcases cached : rib.lpm.bestAt pfx with _ | best
  · symm
    rw [bestExact_eq_none_iff settled.invariant, settled.exact_eq_group]
    refine Set.eq_empty_of_forall_notMem ?_
    rintro entry ⟨member, rfl⟩
    obtain ⟨held, found⟩ := settled.invariant.lpm.exists_bestAt member
    have missing : rib.lpm.bestAt (LpmIndex.network entry) = none := cached
    rw [missing] at found
    cases found
  · symm
    rw [bestExact_eq_some_iff settled.invariant acyclic, settled.exact_eq_group]
    exact settled.optimal pfx best cached

end Settled

/-- The cached best route of a prefix. -/
def cachedRoute (rib : RibImpl family) (pfx : Prefix family.width) : Option (Route family.width) :=
  (rib.lpm.bestAt pfx).map RouteEntry.route

/-- Different stored routes of one prefix have different keys. -/
theorem preferenceKey_injOn (invariant : Invariant rib) {useMed : Bool} {a b : Route family.width}
    (aIn : a ∈ rib.routesOf pfx) (bIn : b ∈ rib.routesOf pfx)
    (same : preferenceKey useMed a = preferenceKey useMed b) : a = b := by
  obtain ⟨first, firstIn, firstPrefix, rfl⟩ := aIn
  obtain ⟨second, secondIn, secondPrefix, rfl⟩ := bIn
  have sameSource : first.source = second.source := preferenceKey_source same
  rw [invariant.unique.eq_of_key firstIn secondIn
    (Prod.ext sameSource (firstPrefix.trans secondPrefix.symm))]

/-- Where MED always counts, the comparison is a strict total order on the stored routes. -/
theorem strictTotalOrder (invariant : Invariant rib) (uniform : MedUniform (rib.routesOf pfx)) :
    IsStrictTotalOrder {route // route ∈ rib.routesOf pfx} (fun a b => ribBetter a.1 b.1 = true) where
  trichotomous a b notLess notGreater := by
    rw [uniform.ribBetter_iff a.2 b.2] at notLess
    rw [uniform.ribBetter_iff b.2 a.2] at notGreater
    exact Subtype.ext (preferenceKey_injOn invariant a.2 b.2
      (le_antisymm (not_lt.mp notGreater) (not_lt.mp notLess)))
  irrefl a less := by
    rw [uniform.ribBetter_iff a.2 a.2] at less
    exact lt_irrefl _ less
  trans a b c aOverB bOverC := by
    rw [uniform.ribBetter_iff a.2 b.2] at aOverB
    rw [uniform.ribBetter_iff b.2 c.2] at bOverC
    rw [uniform.ribBetter_iff a.2 c.2]
    exact aOverB.trans bOverC

/-- A settled table caches the one route that is better than all others of its prefix. -/
theorem Settled.cachedRoute_iff (settled : Settled rib) {route : Route family.width} :
    rib.cachedRoute pfx = some route ↔
      route ∈ rib.routesOf pfx ∧ ∀ other ∈ rib.routesOf pfx, other ≠ route → ribBetter route other = true := by
  have decisive := exact_decisive settled.invariant pfx
  have forward : ∀ held, rib.cachedRoute pfx = some held →
      held ∈ rib.routesOf pfx ∧ ∀ other ∈ rib.routesOf pfx, other ≠ held → ribBetter held other = true := by
    intro held cached
    obtain ⟨best, found, rfl⟩ := Option.map_eq_some_iff.mp cached
    obtain ⟨bestIn, unbeaten⟩ := settled.optimal pfx best found
    rw [← settled.exact_eq_group] at bestIn unbeaten
    refine ⟨⟨best, bestIn.1, bestIn.2, rfl⟩, ?_⟩
    rintro other ⟨entry, member, samePrefix, rfl⟩ different
    exact unbeaten.beats decisive bestIn ⟨member, samePrefix⟩ fun same => different (same ▸ rfl)
  constructor
  · exact forward route
  · rintro ⟨member, beats⟩
    obtain ⟨entry, entryIn, rfl, sameRoute⟩ := member
    obtain ⟨best, found⟩ := settled.invariant.lpm.exists_bestAt entryIn
    rw [network_eq_pfx settled.masked entryIn] at found
    have cached : rib.cachedRoute entry.pfx = some best.route := by rw [cachedRoute, found]; rfl
    obtain ⟨bestIn, bestBeats⟩ := forward best.route cached
    rw [cached]
    by_contra different
    have unequal : route ≠ best.route := fun same => different (by rw [same])
    have wins := beats best.route bestIn (Ne.symm unequal)
    have loses := bestBeats route ⟨entry, entryIn, rfl, sameRoute⟩ unequal
    rw [ribBetter_asymmetric _ _ wins] at loses
    exact Bool.noConfusion loses

/-- The key of the cached route is the least key, whatever the address family. -/
theorem Settled.cachedKey_iff (settled : Settled rib) (uniform : MedUniform (rib.routesOf pfx))
    (key : PreferenceKey) :
    (rib.cachedRoute pfx).map (preferenceKey true) = some key ↔
      IsLeast (Set.image (preferenceKey true) (rib.routesOf pfx)) key := by
  rw [Option.map_eq_some_iff]
  constructor
  · rintro ⟨route, cached, rfl⟩
    obtain ⟨member, beats⟩ := settled.cachedRoute_iff.mp cached
    refine ⟨⟨route, member, rfl⟩, ?_⟩
    rintro _ ⟨other, otherIn, rfl⟩
    by_cases same : other = route
    · rw [same]
    · exact ((uniform.ribBetter_iff member otherIn).mp (beats other otherIn same)).le
  · rintro ⟨⟨route, member, rfl⟩, least⟩
    refine ⟨route, settled.cachedRoute_iff.mpr ⟨member, fun other otherIn different => ?_⟩, rfl⟩
    rw [uniform.ribBetter_iff member otherIn]
    refine lt_of_le_of_ne (least ⟨other, otherIn, rfl⟩) fun same => different ?_
    exact (preferenceKey_injOn settled.invariant member otherIn same).symm

end RibImpl

/-- No step of the run links a route that closes a preference cycle among the routes stored for its
prefix before the step. -/
def HarmlessFrom {af : Af} (state : RibState af) : List (RibOp af × Allocator) → Prop
  | [] => True
  | (op, alloc) :: rest =>
    (∀ route, op.Adds state route → RibImpl.Harmless state.rib route) ∧
      HarmlessFrom (op.apply state alloc).2 rest

/-- A run of harmless routes keeps the table settled. -/
theorem HarmlessFrom.settled {state : RibState af} (harmless : HarmlessFrom state steps) (sound : state.Sound)
    (settled : state.rib.Settled) :
    (steps.foldl (fun state step => (step.1.apply state step.2).2) state).rib.Settled := by
  induction steps generalizing state with
  | nil => exact settled
  | cons step rest ih =>
    obtain ⟨op, alloc⟩ := step
    obtain ⟨now, later⟩ := harmless
    exact ih later (RibOp.apply_sound sound op alloc)
      ((RibOp.apply_effect sound op alloc).1.settled settled now)

theorem ribRun_settled (harmless : HarmlessFrom (.init af) steps) : (ribRun af steps).rib.Settled :=
  harmless.settled (RibState.init_sound af) RibImpl.init_settled

/-- In every run without such a step, the cached best route of every prefix is the one that the
rescan selects. -/
theorem ribRun_cached_eq_rescanned (af : Af) (steps : List (RibOp af × Allocator))
    (harmless : HarmlessFrom (.init af) steps) (pfx : Prefix af.family.width) :
    (ribRun af steps).rib.lpm.bestAt pfx = (ribRun af steps).rib.bestExact pfx :=
  (ribRun_settled harmless).bestAt_eq_bestExact pfx

/-- One prefix for the concrete runs below. -/
def samplePrefix : Prefix 32 := ⟨0x0a000000#32, 8⟩

/-- A route to that prefix from one source. -/
def sampleRoute (source : RouterId) (asn med : UInt32) : Route 32 where
  pfx := samplePrefix
  sourceRouterId := source
  nextHop := 0
  nextHopLinklocal := 0
  weight := 0
  isIbgp := false
  localPref := 100
  med := med
  origin := 0
  asPathLen := 1
  originAs := asn
  updateId := 0
  attrs := [some ⟨0x40, .asPath [⟨2, [asn]⟩] true⟩]

/-- Insert a route while memory suffices. -/
def sampleInsert (source : RouterId) (asn med : UInt32) : RibOp .ipv4 × Allocator :=
  (.insert (sampleRoute source asn med), [])

/-- A finite test for a step that closes no cycle. -/
theorem RibImpl.harmless_of_entries {rib : RibImpl family} {route : Route family.width}
    (masked : route.pfx.len ≤ family.width ∧ lpmNormalizePrefix family route.pfx = route.pfx)
    (acyclic : ∀ a ∈ route :: rib.routes.entries.map RouteEntry.route,
      ∀ b ∈ route :: rib.routes.entries.map RouteEntry.route,
        ∀ c ∈ route :: rib.routes.entries.map RouteEntry.route,
          ribBetter a b = true → ribBetter b c = true → ribBetter c a = false) : rib.Harmless route := by
  have inside : ∀ held ∈ Insert.insert route (rib.routesOf route.pfx),
      held ∈ route :: rib.routes.entries.map RouteEntry.route := by
    rintro held (rfl | ⟨entry, member, -, rfl⟩)
    · exact List.mem_cons_self
    · exact List.mem_cons_of_mem _ (List.mem_map_of_mem member)
  exact ⟨masked, fun a aIn b bIn c cIn => acyclic a (inside a aIn) b (inside b bIn) c (inside c cIn)⟩

/-- Two routes of one neighbour AS around a route of another AS. -/
def rivalSteps (rival : UInt32) : List (RibOp .ipv4 × Allocator) :=
  [sampleInsert 1 1 10, sampleInsert 2 rival 0, sampleInsert 3 1 5]

theorem rivalSteps_harmless : HarmlessFrom (.init .ipv4) (rivalSteps 1) := by
  refine ⟨?_, ?_, ?_, trivial⟩ <;> rintro route rfl
  all_goals exact RibImpl.harmless_of_entries (by decide) (by decide +kernel)

theorem ribRun_cached_eq_rescanned_sameNeighbor :
    (ribRun .ipv4 (rivalSteps 1)).rib.lpm.bestAt samplePrefix =
      (ribRun .ipv4 (rivalSteps 1)).rib.bestExact samplePrefix :=
  ribRun_cached_eq_rescanned .ipv4 (rivalSteps 1) rivalSteps_harmless samplePrefix

/-- With a MED cycle the cache keeps the last route and the rescan selects the first one. -/
theorem ribRun_cached_ne_rescanned :
    ((ribRun .ipv4 (rivalSteps 2)).rib.lpm.bestAt samplePrefix).map RouteEntry.source = some 3 ∧
      ((ribRun .ipv4 (rivalSteps 2)).rib.bestExact samplePrefix).map RouteEntry.source = some 1 := by
  decide +kernel

/-- In every run without a step that closes a cycle: where any two routes of a prefix with different
MED share their neighbour AS, the comparison is the strict total order of the keys, the cached route is
its maximum, and the address family plays no part. -/
theorem ribRun_cached_maximum (af : Af) (steps : List (RibOp af × Allocator))
    (harmless : HarmlessFrom (.init af) steps) (pfx : Prefix af.family.width)
    (uniform : MedUniform ((ribRun af steps).rib.routesOf pfx)) :
    IsStrictTotalOrder {route // route ∈ (ribRun af steps).rib.routesOf pfx}
      (fun a b => ribBetter a.1 b.1 = true) ∧
    (∀ a ∈ (ribRun af steps).rib.routesOf pfx, ∀ b ∈ (ribRun af steps).rib.routesOf pfx,
      ribBetter a b = true ↔ preferenceKey true a < preferenceKey true b) ∧
    (∀ route, (ribRun af steps).rib.cachedRoute pfx = some route ↔
      route ∈ (ribRun af steps).rib.routesOf pfx ∧
        ∀ other ∈ (ribRun af steps).rib.routesOf pfx, other ≠ route → ribBetter route other = true) ∧
    (∀ (twin : Af) (twinSteps : List (RibOp twin × Allocator)) (twinPfx : Prefix twin.family.width),
      HarmlessFrom (.init twin) twinSteps → MedUniform ((ribRun twin twinSteps).rib.routesOf twinPfx) →
      Set.image (preferenceKey true) ((ribRun af steps).rib.routesOf pfx) =
        Set.image (preferenceKey true) ((ribRun twin twinSteps).rib.routesOf twinPfx) →
      ((ribRun af steps).rib.cachedRoute pfx).map (preferenceKey true) =
        ((ribRun twin twinSteps).rib.cachedRoute twinPfx).map (preferenceKey true)) := by
  have settled := ribRun_settled harmless
  refine ⟨RibImpl.strictTotalOrder settled.invariant uniform, fun a aIn b bIn => uniform.ribBetter_iff aIn bIn,
    fun route => settled.cachedRoute_iff, ?_⟩
  intro twin twinSteps twinPfx twinHarmless twinUniform sameKeys
  refine Option.ext fun key => ?_
  rw [settled.cachedKey_iff uniform, (ribRun_settled twinHarmless).cachedKey_iff twinUniform, sameKeys]

/-- A finite test for routes whose MED always counts. -/
theorem RibImpl.medUniform_of_entries (rib : RibImpl family) (pfx : Prefix family.width)
    (shared : ∀ a ∈ rib.routes.entries, ∀ b ∈ rib.routes.entries, a.route.med ≠ b.route.med →
      (ribNeighborAs a.route).isSome = true ∧ ribNeighborAs a.route = ribNeighborAs b.route) :
    MedUniform (rib.routesOf pfx) := by
  rintro _ ⟨a, aIn, -, rfl⟩ _ ⟨b, bIn, -, rfl⟩ different
  obtain ⟨known, same⟩ := shared a aIn b bIn different
  obtain ⟨asn, found⟩ := Option.isSome_iff_exists.mp known
  exact ⟨asn, found, same ▸ found⟩

theorem ribRun_cached_maximum_sameNeighbor :
    MedUniform ((ribRun .ipv4 (rivalSteps 1)).rib.routesOf samplePrefix) ∧
      ∀ route, (ribRun .ipv4 (rivalSteps 1)).rib.cachedRoute samplePrefix = some route ↔
        route ∈ (ribRun .ipv4 (rivalSteps 1)).rib.routesOf samplePrefix ∧
          ∀ other ∈ (ribRun .ipv4 (rivalSteps 1)).rib.routesOf samplePrefix, other ≠ route →
            ribBetter route other = true := by
  have uniform : MedUniform ((ribRun .ipv4 (rivalSteps 1)).rib.routesOf samplePrefix) :=
    RibImpl.medUniform_of_entries (ribRun .ipv4 (rivalSteps 1)).rib samplePrefix (by decide +kernel)
  exact ⟨uniform,
    (ribRun_cached_maximum .ipv4 (rivalSteps 1) rivalSteps_harmless samplePrefix uniform).2.2.1⟩

/-- A route leaves that was beaten by a later one only through MED. -/
def departedSteps : List (RibOp .ipv4 × Allocator) :=
  [sampleInsert 1 1 10, sampleInsert 2 2 5, sampleInsert 3 1 5, (.withdraw 1 samplePrefix, [])]

/-- The two remaining routes have equal MED and the older one is better, but the cache keeps the
younger one. -/
theorem ribRun_cached_not_maximum :
    MedUniform ((ribRun .ipv4 departedSteps).rib.routesOf samplePrefix) ∧
      ∃ cached other, (ribRun .ipv4 departedSteps).rib.cachedRoute samplePrefix = some cached ∧
        other ∈ (ribRun .ipv4 departedSteps).rib.routes.entries ∧ ribBetter other.route cached = true := by
  refine ⟨RibImpl.medUniform_of_entries (ribRun .ipv4 departedSteps).rib samplePrefix (by decide +kernel),
    @RibImpl.cloneOf ipv4 2 (sampleRoute 3 1 5), ⟨1, @RibImpl.cloneOf ipv4 1 (sampleRoute 2 2 5)⟩, ?_⟩
  decide +kernel

end Libbgp
