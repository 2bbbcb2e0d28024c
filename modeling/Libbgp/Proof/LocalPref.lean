/-
LOCAL_PREF in the choice of the best route: weight and preference rank above everything else.
-/

import Libbgp.Construction.Message
import Libbgp.Proof.Runs

namespace Libbgp

open Library RibImpl

section Rank

variable {width : Nat} {a b : Route width}

/-- The part of the preference that no other attribute can outweigh. -/
def preferenceRank (route : Route width) : ℤ ×ₗ ℕ := toLex (route.weight, (effectiveLocalPref route).toNat)

theorem ribBetter_of_rank_lt (lower : preferenceRank b < preferenceRank a) : ribBetter a b = true := by
  unfold ribBetter
  rcases Prod.Lex.toLex_lt_toLex.mp lower with lighter | ⟨equal, less⟩
  · rw [if_pos (ne_of_gt lighter)]
    exact decide_eq_true lighter
  · have preferred : effectiveLocalPref b < effectiveLocalPref a := UInt32.lt_iff_toNat_lt.mpr less
    have apart : effectiveLocalPref a ≠ effectiveLocalPref b := fun same => (ne_of_lt less) (by simp only [same])
    rw [if_neg (not_not.mpr equal.symm), if_pos apart]
    exact decide_eq_true preferred

theorem rank_le_of_ribBetter (better : ribBetter a b = true) : preferenceRank b ≤ preferenceRank a := by
  by_contra above
  have reverse := ribBetter_of_rank_lt (not_le.mp above)
  rw [ribBetter_asymmetric _ _ better] at reverse
  exact Bool.noConfusion reverse

end Rank

namespace RibImpl

variable {family : AddrFamily} {rib after : RibImpl family} {entry : RouteEntry family.width}

namespace Cache

variable {before after : Cache family}

/-- Every cached best route has the highest rank of its group. Unlike `Optimal` this needs no acyclic
preference. -/
def Ranked (cache : Cache family) : Prop :=
  ∀ net best, cache.best net = some best →
    best ∈ cache.group net ∧ ∀ entry ∈ cache.group net, preferenceRank entry.route ≤ preferenceRank best.route

theorem Leave.ranked (leave : Leave before after) (ranked : before.Ranked) : after.Ranked := by
  intro net best cached
  have placed := fun net best held => (ranked net best held).1
  rcases leave.best_cases placed cached with ⟨held, inside⟩ | ⟨remaining, whole, selected⟩
  · exact ⟨inside, fun entry member => (ranked net best held).2 entry (leave.group_subset net member)⟩
  · have highest := Preference.select_rank (fun entry : RouteEntry family.width => preferenceRank entry.route)
      (fun _ _ => rank_le_of_ribBetter) (fun _ _ => ribBetter_of_rank_lt) selected
    rw [← whole]
    exact ⟨Preference.select_mem selected, highest⟩

theorem Shrinks.ranked (shrinks : Shrinks before after) (ranked : before.Ranked) : after.Ranked := by
  induction shrinks with
  | refl => exact ranked
  | tail _ leave ih => exact leave.ranked ih

end Cache

/-- A new entry leaves the highest rank cached. -/
theorem Attached.ranked (attached : Attached rib after entry) (ranked : rib.cache.Ranked)
    (indexes : rib.lpm.Indexes rib.linked) : after.cache.Ranked := by
  intro net best cached
  rcases attached.best_cases indexes cached with ⟨elsewhere, held⟩ | ⟨rfl, empty, rfl⟩ | ⟨rfl, previous, held, winner⟩
  · rw [attached.group_foreign elsewhere]
    exact ranked net best held
  · rw [attached.group_own, empty]
    refine ⟨.inl rfl, ?_⟩
    rintro other (rfl | impossible)
    · exact le_refl _
    · exact absurd impossible (Set.notMem_empty other)
  · obtain ⟨previousIn, highest⟩ := ranked _ _ held
    have won : best ∈ Insert.insert entry (rib.cache.group (LpmIndex.network entry)) ∧
        preferenceRank entry.route ≤ preferenceRank best.route ∧
        preferenceRank previous.route ≤ preferenceRank best.route := by
      by_cases wins : entryBetter entry previous = true
      · rw [if_pos wins] at winner
        subst winner
        exact ⟨.inl rfl, le_refl _, rank_le_of_ribBetter wins⟩
      · rw [if_neg wins] at winner
        have order : preferenceRank entry.route ≤ preferenceRank previous.route :=
          le_of_not_gt fun higher => wins (ribBetter_of_rank_lt higher)
        subst winner
        exact ⟨.inr previousIn, order, le_refl _⟩
    rw [attached.group_own]
    refine ⟨won.1, ?_⟩
    rintro other (rfl | member)
    · exact won.2.1
    · exact (highest other member).trans won.2.2

/-- Every operation keeps the highest rank in the cache. -/
theorem Effect.ranked {touched : RouterId → Prefix family.width → Prop} {adds : Route family.width → Prop}
    (effect : Effect touched adds rib after) (invariant : Invariant rib) (ranked : rib.cache.Ranked) :
    after.cache.Ranked := by
  cases effect with
  | same _ contents =>
    have unchanged : after.cache = rib.cache := by
      simp only [cache, contents.linked_eq, funext contents.best]
    exact unchanged ▸ ranked
  | stored route own added result =>
    obtain ⟨middle, attached, outcome⟩ := result.middle
    have joined := attached.ranked ranked invariant.lpm
    rcases outcome with ⟨-, rfl⟩ | ⟨old, found, detached⟩
    · exact joined
    · have oldIn : old ∈ middle.linked := by
        rw [attached.linked_eq]
        exact .inr (find_some found).1
      exact (detached.leave oldIn).ranked joined
  | detached held member own result => exact (result.leave member).ranked ranked
  | attached route own added _ result => exact result.ranked ranked invariant.lpm
  | discarded source own result => exact result.shrinks.ranked ranked

/-- A full scan returns a route of the highest rank of its prefix. -/
theorem bestExact_rank (invariant : Invariant rib) {pfx : Prefix family.width} {best : RouteEntry family.width}
    (found : rib.bestExact pfx = some best) (member : entry ∈ rib.exact pfx) :
    preferenceRank entry.route ≤ preferenceRank best.route :=
  Preference.select_rank (fun entry : RouteEntry family.width => preferenceRank entry.route)
    (fun _ _ => rank_le_of_ribBetter) (fun _ _ => ribBetter_of_rank_lt) found entry
    ((mem_scan_iff invariant).mpr member)

end RibImpl

theorem init_ranked (family : AddrFamily) : (init family).cache.Ranked := by
  intro net best cached
  change (LpmIndex.init family).bestAt net = some best at cached
  rw [LpmIndex.bestAt, LpmIndex.find_init] at cached
  cases cached

theorem ribRun_ranked (af : Af) (steps : List (RibOp af × Allocator)) : (ribRun af steps).rib.cache.Ranked := by
  have kept : (ribRun af steps).Sound ∧ (ribRun af steps).rib.cache.Ranked := by
    refine @ribRun_induction af (fun state => state.Sound ∧ state.rib.cache.Ranked)
      ⟨RibState.init_sound af, init_ranked af.family⟩ ?_ steps
    intro state holds op alloc
    have effect := (RibOp.apply_effect holds.1 op alloc).1
    exact ⟨RibOp.apply_sound holds.1 op alloc, effect.ranked holds.1.invariant holds.2⟩
  exact kept.2

/-- An internal session receives the prefix with this LOCAL_PREF. -/
structure Offers (fsm : Fsm) (update : UpdateMsg) (af : Af) (announced : Announced af.family.width) (value : UInt32) :
    Prop where
  internal : fsm.isIbgp = true
  listed : announced ∈ announcedPrefixes update af
  carried : (attrViewGet update.attrs 5).map PAttr.data = some (.localPref value)

section Offers

variable {af : Af} {fsm first second : Fsm} {update better worse : UpdateMsg}
  {announced top other : Announced af.family.width} {value a b : UInt32}

/-- The preference of the stored route: a received zero has become the default. -/
theorem Offers.preference (offers : Offers fsm update af announced value) (counter : UInt64) :
    effectiveLocalPref (cloneOf counter (fsm.announcedRoute update af announced)) =
      if value = 0 then 100 else value := by
  have received : localPrefOf update fsm.isIbgp = value := by
    simp only [localPrefOf, offers.internal, offers.carried]
  have stored : (cloneOf counter (fsm.announcedRoute update af announced)).localPref =
      if value = 0 then 100 else value := by
    simp only [cloneOf, Fsm.announcedRoute, routeOf, received]
  rw [effectiveLocalPref, stored]
  split
  · rfl
  · rfl

/-- The ranks compare as the preferences do once a zero is replaced. -/
theorem Offers.rank_lt (high : Offers first better af top a) (low : Offers second worse af other b)
    (weights : first.params.routeWeight = second.params.routeWeight)
    (less : (if b = 0 then 100 else b) < if a = 0 then 100 else a) (early late : UInt64) :
    preferenceRank (cloneOf late (second.announcedRoute worse af other)) <
      preferenceRank (cloneOf early (first.announcedRoute better af top)) := by
  refine Prod.Lex.toLex_lt_toLex.mpr (.inr ⟨weights.symm, ?_⟩)
  rw [high.preference, low.preference]
  exact UInt32.lt_iff_toNat_lt.mp less

/-- A route is preferred to another one whatever their update ids are, and no table that holds both chooses
the other one, neither when it scans nor from its cache. -/
def AlwaysPreferred (af : Af) (route other : Route af.family.width) : Prop :=
  (∀ early late,
    ribBetter (cloneOf early route) (cloneOf late other) = true ∧
      ribBetter (cloneOf late other) (cloneOf early route) = false) ∧
  ∀ steps, ∀ winner ∈ (ribRun af steps).rib.linked, ∀ loser ∈ (ribRun af steps).rib.linked, ∀ early late,
    winner.route = cloneOf early route → loser.route = cloneOf late other →
    (ribRun af steps).rib.bestExact loser.pfx ≠ some loser ∧
      (ribRun af steps).rib.lpm.bestAt (LpmIndex.network loser) ≠ some loser

/-- The route of the higher rank is always preferred. -/
theorem AlwaysPreferred.ofRank {route rival : Route af.family.width} (same : route.pfx = rival.pfx)
    (ranks : ∀ early late, preferenceRank (cloneOf late rival) < preferenceRank (cloneOf early route)) :
    AlwaysPreferred af route rival := by
  have ordered := fun early late => ribBetter_of_rank_lt (ranks early late)
  refine ⟨fun early late => ⟨ordered early late, ribBetter_asymmetric _ _ (ordered early late)⟩, ?_⟩
  intro steps winner winnerIn loser loserIn early late won lost
  have lower := ranks early late
  rw [← won, ← lost] at lower
  have place : winner.pfx = loser.pfx := by
    rw [RouteEntry.pfx, RouteEntry.pfx, won, lost]
    exact same
  have network : LpmIndex.network winner = LpmIndex.network loser := by
    rw [LpmIndex.network, LpmIndex.network, place]
  constructor
  · intro chosen
    exact absurd (bestExact_rank (ribRun_sound af steps).invariant chosen ⟨winnerIn, place⟩) (not_le.mpr lower)
  · intro chosen
    exact absurd ((ribRun_ranked af steps _ _ chosen).2 winner ⟨winnerIn, network⟩) (not_le.mpr lower)

/-- One prefix of each family with this preference, and the prefixes as they are announced. -/
def samplePreference (value : UInt32) : UpdateMsg :=
  ⟨[], [some ⟨0x40, .origin 0⟩, some ⟨0x40, .asPath [] true⟩, some ⟨0x40, .nextHop 0x0a000009⟩,
    some ⟨0x40, .localPref value⟩, some ⟨0x80, .mpReachIpv6 1 0 16 [⟨0, 32⟩]⟩], [⟨0xc0000200, 24⟩]⟩

def samplePreferred : (af : Af) → Announced af.family.width
  | .ipv4 => ⟨⟨0xc0000200, 24⟩, 0x0a000009, 0, 0⟩
  | .ipv6 => ⟨⟨0, 32⟩, 1, 0, 16⟩

/-- Two internal sessions, each of which has announced the prefixes. -/
def sampleRivals (first second : UInt32) : Sys :=
  (Sys.init [.session (sampleParams 65001), .session (sampleParams 65001)]).run libbgpCode
    (sampleUp 0 65001 0x0a000002 ++ sampleUp 1 65001 0x0a000003 ++
      [calmStep 0 (.packet (.update (samplePreference first))),
        calmStep 1 (.packet (.update (samplePreference second)))])

theorem sample_offers (internal : fsm.isIbgp = true) (af : Af) (value : UInt32) :
    Offers fsm (samplePreference value) af (samplePreferred af) value := by
  refine ⟨internal, ?_, rfl⟩
  cases af <;> exact List.mem_singleton.mpr rfl

/-- A relation holds between any two routes for one prefix that internal sessions of one weight receive with
these values of LOCAL_PREF. -/
def ForOffers (af : Af) (a b : UInt32) (relation : Route af.family.width → Route af.family.width → Prop) : Prop :=
  ∀ first second better worse (top other : Announced af.family.width),
    Offers first better af top a → Offers second worse af other b → top.pfx = other.pfx →
    first.params.routeWeight = second.params.routeWeight →
    relation (first.announcedRoute better af top) (second.announcedRoute worse af other)

theorem ForOffers.preferred (less : (if b = 0 then 100 else b) < if a = 0 then 100 else a) :
    ForOffers af a b (AlwaysPreferred af) := by
  intro first second better worse top other high low same weights
  exact .ofRank same (high.rank_lt low weights less)

theorem ForOffers.swap {relation : Route af.family.width → Route af.family.width → Prop}
    (all : ForOffers af b a relation) : ForOffers af a b fun route other => relation other route := by
  intro first second better worse top other high low same weights
  exact all second first worse better other top low high same.symm weights.symm

/-- A zero and the default tie, so that other attributes decide. -/
theorem default_not_preferred : ¬ ForOffers af 100 0 (AlwaysPreferred af) := by
  intro decides
  have first : ((sampleRivals 100 0).fsm 0).isIbgp = true := by decide +kernel
  have second : ((sampleRivals 100 0).fsm 1).isIbgp = true := by decide +kernel
  have chosen := (decides _ _ _ _ _ _ (sample_offers first af 100) (sample_offers second af 0) rfl
    (by decide +kernel)).1 7 6
  cases af <;> exact absurd chosen.1 (by decide +kernel)

/-- For two values of LOCAL_PREF the higher one decides between any two routes of internal sessions of one
weight exactly when the lower one is not zero or the higher one is above the default. A zero always wins
against a value below the default. -/
theorem local_pref_decides (af : Af) (more : b < a) :
    (ForOffers af a b (AlwaysPreferred af) ↔ b ≠ 0 ∨ 100 < a) ∧
      (b = 0 → a < 100 → ForOffers af a b fun route other => AlwaysPreferred af other route) := by
  have nonzero : a ≠ 0 := by
    rintro rfl
    exact absurd more UInt32.not_lt_zero
  have reverse : b = 0 → a < 100 → ForOffers af a b fun route other => AlwaysPreferred af other route := by
    intro zero small
    exact (ForOffers.preferred (by simpa [zero, nonzero] using small)).swap
  refine ⟨⟨fun decides => ?_, fun heeded => .preferred ?_⟩, reverse⟩
  · by_contra unheeded
    obtain ⟨zero, small⟩ := not_or.mp unheeded
    obtain rfl : b = 0 := not_not.mp zero
    rcases UInt32.le_iff_lt_or_eq.mp (UInt32.not_lt.mp small) with below | rfl
    · -- The same two routes cannot each be preferred to the other one.
      have first : ((sampleRivals 100 0).fsm 0).isIbgp = true := by decide +kernel
      have won := decides _ _ _ _ _ _ (sample_offers first af a) (sample_offers first af 0) rfl rfl
      have lost := reverse rfl below _ _ _ _ _ _ (sample_offers first af a) (sample_offers first af 0) rfl rfl
      exact Bool.noConfusion ((won.1 0 0).1.symm.trans (lost.1 0 0).2)
    · exact default_not_preferred decides
  · rw [if_neg nonzero]
    split
    · rename_i zero
      exact heeded.resolve_left (not_not.mpr zero)
    · exact more

theorem local_pref_decides_sample :
    ribBetter
      (cloneOf 7
        (((sampleRivals 200 150).fsm 0).announcedRoute (samplePreference 200) .ipv4 (samplePreferred .ipv4)))
      (cloneOf 6
        (((sampleRivals 200 150).fsm 1).announcedRoute (samplePreference 150) .ipv4 (samplePreferred .ipv4))) =
          true := by
  have first : ((sampleRivals 200 150).fsm 0).isIbgp = true := by decide +kernel
  have second : ((sampleRivals 200 150).fsm 1).isIbgp = true := by decide +kernel
  exact (((local_pref_decides .ipv4 (by decide)).1.mpr (.inl (by decide)) _ _ _ _ _ _ (sample_offers first _ 200)
    (sample_offers second _ 150) rfl (by decide +kernel)).1 7 6).1

end Offers

/-- A preference of 50 loses against a preference of zero. -/
theorem local_pref_zero_wins :
    (((sampleRivals 50 0).fsm 0).isIbgp = true ∧ ((sampleRivals 50 0).fsm 1).isIbgp = true ∧
      ((sampleRivals 50 0).fsm 0).params.routeWeight = ((sampleRivals 50 0).fsm 1).params.routeWeight) ∧
    ((sampleRivals 50 0).ribs.get .ipv4).routes.entries.map RouteEntry.source = [0x0a000003, 0x0a000002] ∧
      (((sampleRivals 50 0).ribs.get .ipv4).bestExact ⟨0xc0000200, 24⟩).map RouteEntry.source = some 0x0a000003 ∧
      (((sampleRivals 50 0).ribs.get .ipv4).lpm.bestAt ⟨0xc0000200, 24⟩).map RouteEntry.source = some 0x0a000003 := by
  decide +kernel

end Libbgp
