/-
The best routes as a view from prefixes to announcements, which recorded changes keep up to date.
-/

import Libbgp.Proof.RouteChanges
import Libbgp.Proof.System

namespace Libbgp

open Library List RibImpl

/-- A prefix of one of the families. -/
abbrev Key := (af : Af) × Prefix af.family.width

/-- A route as an event carries it. -/
structure Announcement where
  source : RouterId
  update : UpdateMsg
  deriving DecidableEq

/-- What someone who follows the events knows about each prefix. -/
abbrev View := Key → Option Announcement

def announcement (af : Af) (entry : RouteEntry af.family.width) : Announcement :=
  ⟨entry.source, exportedMessage af entry.route⟩

/-- The best routes of the tables. -/
def bestView (ribs : Ribs) : View := fun key => ((ribs.get key.1).bestExact key.2).map (announcement key.1)

namespace RouteChange

def key : RouteChange → Key
  | .added af route => ⟨af, route.pfx⟩
  | .withdrawn af pfx => ⟨af, pfx⟩

def value : RouteChange → Option Announcement
  | .added af route => some ⟨route.sourceRouterId, exportedMessage af route⟩
  | .withdrawn _ _ => none

def apply (view : View) (change : RouteChange) : View := Function.update view change.key change.value

/-- The changes of one key that agree on its value decide it. -/
theorem foldl_apply {changes : List RouteChange} {key : Key} {value : Option Announcement}
    (agree : ∀ change ∈ changes, change.key = key → change.value = value) (view : View) :
    ((∃ change ∈ changes, change.key = key) → changes.foldl apply view key = value) ∧
    ((∀ change ∈ changes, change.key ≠ key) → changes.foldl apply view key = view key) := by
  induction changes generalizing view with
  | nil => exact ⟨fun ⟨_, impossible, _⟩ => (nomatch impossible), fun _ => rfl⟩
  | cons change rest ih =>
    obtain ⟨touched, untouched⟩ := ih (fun other member => agree other (mem_cons_of_mem _ member)) (apply view change)
    have first : change.key = key → apply view change key = value := by
      rintro rfl
      rw [apply, Function.update_self]
      exact agree change mem_cons_self rfl
    refine ⟨fun some => ?_, fun none => ?_⟩
    · by_cases later : ∃ change ∈ rest, change.key = key
      · exact touched later
      · obtain ⟨other, member, same⟩ := some
        rcases mem_cons.mp member with rfl | behind
        · exact (untouched fun last inside here => later ⟨last, inside, here⟩).trans (first same)
        · exact absurd ⟨other, behind, same⟩ later
    · rw [foldl_cons, untouched fun other member => none other (mem_cons_of_mem _ member), apply,
        Function.update_of_ne (none change mem_cons_self).symm]

end RouteChange

/-- MED always counts among the routes of a prefix. -/
def Ribs.Uniform (ribs : Ribs) : Prop := ∀ af pfx, MedUniform ((ribs.get af).routesOf pfx)

theorem MedUniform.of_similar {width : Nat} {small large : Set (Route width)} (uniform : MedUniform large)
    (similar : ∀ a ∈ small, ∃ b ∈ large, b.med = a.med ∧ ribNeighborAs b = ribNeighborAs a) : MedUniform small := by
  intro a aIn b bIn different
  obtain ⟨first, firstIn, firstMed, firstFrom⟩ := similar a aIn
  obtain ⟨second, secondIn, secondMed, secondFrom⟩ := similar b bIn
  obtain ⟨asn, left, right⟩ := uniform first firstIn second secondIn (by rw [firstMed, secondMed]; exact different)
  exact ⟨asn, firstFrom ▸ left, secondFrom ▸ right⟩

theorem RibImpl.mem_routesOf_iff {family : AddrFamily} {rib : RibImpl family} (invariant : rib.Invariant)
    {pfx : Prefix family.width} {route : Route family.width} :
    route ∈ rib.routesOf pfx ↔ rib.routeAt route.sourceRouterId pfx = some route := by
  rw [invariant.routeAt_eq_some_iff]
  constructor
  · rintro ⟨entry, member, place, rfl⟩
    exact ⟨entry, member, rfl, place, rfl⟩
  · rintro ⟨entry, member, -, place, same⟩
    exact ⟨entry, member, place, same⟩

section Discard

variable {ribs : Ribs} {af : Af} {rib : RibImpl af.family} {source : RouterId}

theorem bestView_set_same (pfx : Prefix af.family.width) :
    bestView (ribs.set af rib) ⟨af, pfx⟩ = (rib.bestExact pfx).map (announcement af) := by
  simp only [bestView, Ribs.get_set]

variable {result : RibImpl.DiscardResult af.family.width}

/-- Every reported change is about a prefix that the source led, and has its new best route. -/
theorem discardChanges_family (discarded : (ribs.get af).Discarded rib source)
    (report : (ribs.get af).DiscardReport rib source result) {change : RouteChange}
    (member : change ∈ Sys.discardChanges af result) :
    ∃ pfx, (ribs.get af).Leads source pfx ∧ change.key = ⟨af, pfx⟩ ∧
      change.value = (rib.bestExact pfx).map (announcement af) := by
  obtain ⟨active, -, leads, withdrawn, replacements⟩ := report
  rcases mem_append.mp member with gone | found
  · obtain ⟨pfx, listed, rfl⟩ := mem_map.mp gone
    rw [withdrawn, mem_filter, Option.isNone_iff_eq_none] at listed
    exact ⟨pfx, (leads pfx).mp listed.1, rfl, by rw [listed.2]; rfl⟩
  · obtain ⟨route, listed, rfl⟩ := mem_map.mp found
    simp only [replacements, mem_filterMap, Option.map_eq_some_iff] at listed
    obtain ⟨pfx, led, best, some, rfl⟩ := listed
    have place : best.pfx = pfx := (bestExact_mem discarded.invariant some).2
    refine ⟨pfx, (leads pfx).mp led, ?_, by rw [some]; rfl⟩
    rw [← place]
    rfl

/-- Every prefix that the source led is reported. -/
theorem discardChanges_reports (discarded : (ribs.get af).Discarded rib source)
    (report : (ribs.get af).DiscardReport rib source result) {pfx : Prefix af.family.width}
    (led : (ribs.get af).Leads source pfx) : ∃ change ∈ Sys.discardChanges af result, change.key = ⟨af, pfx⟩ := by
  obtain ⟨active, -, leads, withdrawn, replacements⟩ := report
  have listed := (leads pfx).mpr led
  rcases found : rib.bestExact pfx with _ | best
  · refine ⟨.withdrawn af pfx, mem_append_left _ (mem_map_of_mem ?_), rfl⟩
    rw [withdrawn, mem_filter, Option.isNone_iff_eq_none]
    exact ⟨listed, found⟩
  · have place : best.pfx = pfx := (bestExact_mem discarded.invariant found).2
    refine ⟨.added af best.route, mem_append_right _ (mem_map_of_mem ?_), ?_⟩
    · simp only [replacements, mem_filterMap, Option.map_eq_some_iff]
      exact ⟨pfx, listed, best, found, rfl⟩
    · rw [← place]
      rfl

/-- Where nothing is reported, the best route is the old one. -/
theorem discardChanges_untouched (invariant : (ribs.get af).Invariant) (uniform : ribs.Uniform)
    (discarded : (ribs.get af).Discarded rib source) (report : (ribs.get af).DiscardReport rib source result)
    {other : Af} {pfx : Prefix other.family.width}
    (untouched : ∀ change ∈ Sys.discardChanges af result, change.key ≠ ⟨other, pfx⟩) :
    ((ribs.set af rib).get other).bestExact pfx = (ribs.get other).bestExact pfx := by
  by_cases here : other = af
  · subst here
    rw [Ribs.get_set]
    refine discarded.bestExact_eq invariant (exact_acyclic (uniform other pfx)) fun led => ?_
    obtain ⟨change, member, place⟩ := discardChanges_reports discarded report led
    exact untouched change member place
  · rw [Ribs.get_set_of_ne _ here]

/-- The changes that a discard reports are all that happens to the best routes. -/
theorem discardChanges_explain (invariant : (ribs.get af).Invariant) (uniform : ribs.Uniform)
    (discarded : (ribs.get af).Discarded rib source) (report : (ribs.get af).DiscardReport rib source result) :
    (Sys.discardChanges af result).foldl RouteChange.apply (bestView ribs) = bestView (ribs.set af rib) := by
  funext ⟨other, pfx⟩
  obtain ⟨touched, untouched⟩ := @RouteChange.foldl_apply (Sys.discardChanges af result) ⟨other, pfx⟩
    (bestView (ribs.set af rib) ⟨other, pfx⟩) (by
      intro change member same
      obtain ⟨place, -, key, value⟩ := discardChanges_family discarded report member
      rw [key] at same
      cases same
      rw [value, bestView_set_same]) (bestView ribs)
  by_cases reported : ∃ change ∈ Sys.discardChanges af result, change.key = ⟨other, pfx⟩
  · exact touched reported
  · have none : ∀ change ∈ Sys.discardChanges af result, change.key ≠ ⟨other, pfx⟩ := fun change member place =>
      reported ⟨change, member, place⟩
    rw [untouched none]
    simp only [bestView, discardChanges_untouched invariant uniform discarded report none]

end Discard

namespace Fsm

variable {fsm : Fsm} {update : UpdateMsg} {item : ApplyItem} {items rest : List ApplyItem}
  {start before after final : Applying} {changes : List RouteChange}

/-- The changes that a turn records are all that happens to the best routes. -/
theorem Reported.explains (reported : Reported item before after changes)
    (others : ∀ af, af ≠ item.table → after.ribs.get af = before.ribs.get af)
    (invariant : ∀ af, (before.ribs.get af).Invariant) (afterInvariant : ∀ af, (after.ribs.get af).Invariant)
    (uniform : before.ribs.Uniform) :
    changes.foldl RouteChange.apply (bestView before.ribs) = bestView after.ribs := by
  have acyclic := fun pfx => exact_acyclic (uniform item.table pfx)
  have elsewhere : ∀ key : Key, key ≠ ⟨item.table, item.pfx⟩ → bestView after.ribs key = bestView before.ribs key := by
    rintro ⟨af, pfx⟩ different
    by_cases here : af = item.table
    · subst here
      have apart : pfx ≠ item.pfx := fun same => different (by rw [same])
      simp only [bestView, bestExact_congr (invariant _) (afterInvariant _) (acyclic pfx)
        (reported.elsewhere pfx apart)]
    · simp only [bestView, others af here]
  have single : ∀ change : RouteChange, change.key = ⟨item.table, item.pfx⟩ →
      change.value = bestView after.ribs ⟨item.table, item.pfx⟩ →
      RouteChange.apply (bestView before.ribs) change = bestView after.ribs := by
    intro change place value
    funext key
    by_cases here : key = ⟨item.table, item.pfx⟩
    · rw [RouteChange.apply, place, here, Function.update_self, value]
    · rw [RouteChange.apply, place, Function.update_of_ne here, elsewhere key here]
  have report := reported.report
  cases report with
  | silent kept =>
    funext key
    by_cases here : key = ⟨item.table, item.pfx⟩
    · subst here
      simp only [foldl_nil, bestView, kept (acyclic item.pfx)]
    · exact (elsewhere key here).symm
  | lost gone =>
    refine single _ rfl ?_
    simp only [RouteChange.value, bestView, gone, Option.map_none]
  | found best found =>
    have place : best.pfx = item.pfx := (bestExact_mem (afterInvariant _) found).2
    refine single _ ?_ ?_
    · rw [← place]
      rfl
    · simp only [RouteChange.value, bestView, found, Option.map_some]
      rfl

/-- A turn records changes of its own prefix only. -/
theorem Reported.key {changes : List RouteChange} (reported : Reported item before after changes)
    (afterInvariant : (after.ribs.get item.table).Invariant) {change : RouteChange} (member : change ∈ changes) :
    change.key = ⟨item.table, item.pfx⟩ := by
  have report := reported.report
  cases report with
  | silent kept => cases member
  | lost gone =>
    rw [mem_singleton.mp member]
    rfl
  | found best found =>
    have place : best.pfx = item.pfx := (bestExact_mem afterInvariant found).2
    rw [mem_singleton.mp member, ← place]
    rfl

/-- Where a turn records no change, the best route is the old one. -/
theorem Reported.untouched (reported : Reported item before after changes)
    (others : ∀ af, af ≠ item.table → after.ribs.get af = before.ribs.get af)
    (invariant : ∀ af, (before.ribs.get af).Invariant) (afterInvariant : ∀ af, (after.ribs.get af).Invariant)
    (uniform : before.ribs.Uniform) {af : Af} {pfx : Prefix af.family.width}
    (untouched : ∀ change ∈ changes, change.key ≠ ⟨af, pfx⟩) :
    (after.ribs.get af).bestExact pfx = (before.ribs.get af).bestExact pfx := by
  by_cases here : af = item.table
  · subst here
    have acyclic := exact_acyclic (uniform item.table pfx)
    by_cases place : pfx = item.pfx
    · subst place
      have report := reported.report
      have own := @reported.key
      cases report with
      | silent kept => exact kept acyclic
      | lost gone => exact absurd rfl (untouched _ mem_cons_self)
      | found best found => exact absurd (own (afterInvariant _) mem_cons_self) (untouched _ mem_cons_self)
    · exact bestExact_congr (invariant _) (afterInvariant _) acyclic (reported.elsewhere pfx place)
  · rw [others af here]

/-- MED counts in the middle of a message when it does before and after it. -/
theorem Underway.uniform (valid : ValidUpdate update) (whole : ∀ af announced, .announce af announced ∈ items →
      announced ∈ announcedPrefixes update af)
    (outcome : ∀ af pfx, fsm.Outcome update items af pfx (start.routesFrom af fsm.peerBgpId pfx)
      (final.routesFrom af fsm.peerBgpId pfx))
    (foreign : ∀ af source, source ≠ fsm.peerBgpId → final.routesFrom af source = start.routesFrom af source)
    (startInvariant : ∀ af, (start.ribs.get af).Invariant) (finalInvariant : ∀ af, (final.ribs.get af).Invariant)
    (startUniform : start.ribs.Uniform) (finalUniform : final.ribs.Uniform)
    (underway : Underway fsm update items start before) (invariant : ∀ af, (before.ribs.get af).Invariant) :
    before.ribs.Uniform := by
  intro af pfx
  have others : ∀ route, route ∈ (before.ribs.get af).routesOf pfx → route.sourceRouterId ≠ fsm.peerBgpId →
      start.routesFrom af route.sourceRouterId pfx = some route := by
    intro route member different
    rw [← underway.foreign af _ different]
    exact (mem_routesOf_iff (invariant af)).mp member
  by_cases fresh : ∃ announced counter, fsm.Announces update items af pfx announced ∧
      before.routesFrom af fsm.peerBgpId pfx = some (cloneOf counter (fsm.announcedRoute update af announced))
  · -- The message announces the prefix, so it ends with the same route up to its update id.
    obtain ⟨announced, counter, announces, stored⟩ := fresh
    obtain ⟨last, later, lastAnnounces, ends⟩ := (outcome af pfx).announced ⟨announced, announces⟩
    have same := valid.announced_unique (whole af announced announces.1) (whole af last lastAnnounces.1)
      (announces.2.1.trans lastAnnounces.2.1.symm)
    subst same
    refine (finalUniform af pfx).of_similar fun route member => ?_
    by_cases own : route.sourceRouterId = fsm.peerBgpId
    · have held := (mem_routesOf_iff (invariant af)).mp member
      rw [own] at held
      have equal := Option.some.inj (held.symm.trans stored)
      refine ⟨cloneOf later (fsm.announcedRoute update af announced),
        (mem_routesOf_iff (finalInvariant af)).mpr ends, ?_, ?_⟩
      · rw [equal]
        rfl
      · rw [equal]
        rfl
    · refine ⟨route, (mem_routesOf_iff (finalInvariant af)).mpr ?_, rfl, rfl⟩
      have kept := foreign af _ own
      rw [Applying.routesFrom] at kept
      rw [kept]
      exact others route member own
  · refine (startUniform af pfx).of_similar fun route member => ⟨route, ?_, rfl, rfl⟩
    rw [mem_routesOf_iff (startInvariant af)]
    by_cases own : route.sourceRouterId = fsm.peerBgpId
    · have held := (mem_routesOf_iff (invariant af)).mp member
      rw [own] at held ⊢
      rcases underway.own af pfx with old | gone | new
      · exact old.symm.trans held
      · cases gone.symm.trans held
      · exact absurd new fresh
    · exact others route member own

section Applied

variable {code : MessageCode} {ribs : Ribs} {alloc : Allocator} {subcode : UInt8} {state : Applying}
  (invariant : ∀ af, (ribs.get af).Invariant) (done : fsm.applyUpdate code update ribs alloc = (.ok, subcode, state))
  (uniform : ribs.Uniform) (uniformNow : state.ribs.Uniform)

include invariant done uniform uniformNow

/-- What the turns of an applied message keep, while MED counts all along. -/
theorem applyUpdate_keeps {kept : Ribs → List RouteChange → Prop}
    (step : ∀ item (before after : Applying) earlier changes, (∀ af, (before.ribs.get af).Invariant) →
      (∀ af, (after.ribs.get af).Invariant) → before.ribs.Uniform →
      (∀ af, af ≠ item.table → after.ribs.get af = before.ribs.get af) → Reported item before after changes →
      kept before.ribs earlier → kept after.ribs (earlier ++ changes))
    (begins : kept ribs []) : kept state.ribs state.journal.changes := by
  obtain ⟨valid, start, starts, run⟩ := applyUpdate_done invariant done
  have order := applyItems_inOrder fsm update (fsm.ignores code update)
  have sound : ∀ af, (start.ribs.get af).Invariant := by rw [starts.ribs]; exact invariant
  have tracked := (@Starts.tracked fsm _ _ _ starts invariant).run run (starts.early _) order
  have between := fun state => @Underway.uniform fsm update _ start state _ valid
    (fun af announced member => (announce_mem_applyItems.mp member).2) (applied_outcome run sound order) tracked.foreign
    sound tracked.invariant (by rw [starts.ribs]; exact uniform) uniformNow
  refine @applyUpdate_changes fsm update (fun _ state changes => kept state.ribs changes) code ribs alloc start state
    invariant starts run ?_ (by rw [starts.ribs]; exact begins)
  intro item rest before after earlier changes sound underway _ _ taken reported holds
  exact step item before after earlier changes sound (taken.sound sound) (between _ underway sound)
    (taken.confined (sound _)).others reported holds

/-- The changes that an applied message records are all that happens to the best routes. -/
theorem applyUpdate_explains : state.journal.changes.foldl RouteChange.apply (bestView ribs) = bestView state.ribs := by
  refine @applyUpdate_keeps _ _ _ _ _ _ _ invariant done uniform uniformNow (fun tables changes =>
    changes.foldl RouteChange.apply (bestView ribs) = bestView tables) ?_ rfl
  intro item before after earlier changes sound soundNow between others reported explained
  rw [foldl_append, explained]
  exact reported.explains others sound soundNow between

/-- Where an applied message records no change, the best route is the old one. -/
theorem applyUpdate_untouched {af : Af} {pfx : Prefix af.family.width}
    (untouched : ∀ change ∈ state.journal.changes, change.key ≠ ⟨af, pfx⟩) :
    (state.ribs.get af).bestExact pfx = (ribs.get af).bestExact pfx := by
  revert untouched
  refine @applyUpdate_keeps _ _ _ _ _ _ _ invariant done uniform uniformNow (fun tables changes =>
    (∀ change ∈ changes, change.key ≠ ⟨af, pfx⟩) → (tables.get af).bestExact pfx = (ribs.get af).bestExact pfx) ?_
    fun _ => rfl
  intro item before after earlier changes sound soundNow between others reported kept untouched
  rw [← kept fun change member => untouched change (mem_append_left _ member)]
  exact reported.untouched others sound soundNow between fun change member =>
    untouched change (mem_append_right _ member)

end Applied

end Fsm

end Libbgp
