/-
When the best route of a prefix changes, every peer that may have it is told.
-/

import Libbgp.Proof.PeerViews
import Libbgp.Proof.SameDecision

namespace Libbgp

open Library RibImpl

/-- Where routes are added and an old one is the best, it was so before. -/
theorem RibImpl.bestExact_grown {family : AddrFamily} {rib after : RibImpl family} {pfx : Prefix family.width}
    (invariant : rib.Invariant) (afterInvariant : after.Invariant) (uniform : MedUniform (after.routesOf pfx))
    (more : rib.routesOf pfx ⊆ after.routesOf pfx) {best : RouteEntry family.width}
    (found : after.bestExact pfx = some best) (old : best.route ∈ rib.routesOf pfx) :
    (rib.bestExact pfx).map RouteEntry.route = some best.route := by
  obtain ⟨entry, member, place, same⟩ := old
  have unbeaten := ((bestExact_eq_some_iff afterInvariant (exact_acyclic uniform)).mp found).2
  have fewer : MedUniform (rib.routesOf pfx) := fun a aIn b bIn => uniform a (more aIn) b (more bIn)
  have chosen : rib.bestExact pfx = some entry := by
    refine (bestExact_eq_some_iff invariant (exact_acyclic fewer)).mpr ⟨⟨member, place⟩, ?_⟩
    rintro other ⟨otherIn, otherPlace⟩
    obtain ⟨twin, twinIn, twinPlace, twinRoute⟩ := more ⟨other, otherIn, otherPlace, rfl⟩
    have loses := unbeaten twin ⟨twinIn, twinPlace⟩
    rw [entryBetter, twinRoute, ← same] at loses
    exact loses
  rw [chosen, Option.map_some, same]

namespace Fsm

variable {fsm : Fsm} {update : UpdateMsg}

/-- An UPDATE names a prefix. -/
def Mentions (update : UpdateMsg) (af : Af) (pfx : Prefix af.family.width) : Prop :=
  pfx ∈ withdrawnPrefixes update af ∨ ∃ announced ∈ announcedPrefixes update af, announced.pfx = pfx

/-- An UPDATE names no prefix for which both its sender and another source have a route, and MED counts
between what it announces and what other sources have announced. -/
structure Yields (fsm : Fsm) (update : UpdateMsg) (ribs : Ribs) : Prop where
  apart : ∀ af pfx, Mentions update af pfx → (ribs.get af).routeAt fsm.peerBgpId pfx = none ∨
    ∀ source, source ≠ fsm.peerBgpId → (ribs.get af).routeAt source pfx = none
  comparable : ∀ af, ∀ announced ∈ announcedPrefixes update af, ∀ source route, source ≠ fsm.peerBgpId →
    (ribs.get af).routeAt source announced.pfx = some route → route.med ≠ medOf update →
      ∃ asn, ribNeighborAs route = some asn ∧ ribNeighborAs (fsm.announcedRoute update af announced) = some asn

theorem Yields.same {first second : Fsm} {ribs : Ribs} (yields : first.Yields update ribs)
    (same : first.SameSession second) : second.Yields update ribs := by
  rw [same]
  exact ⟨yields.apart, yields.comparable⟩

section Applied

variable {code : MessageCode} {sys : Sys} {subcode : UInt8} {state : Applying} (sound : sys.Sound)
  (done : fsm.applyUpdate code update sys.ribs sys.alloc = (.ok, subcode, state))

include sound done

/-- The own route for a prefix after a message: an announced one, none, or the old one. -/
theorem applyUpdate_own (af : Af) (pfx : Prefix af.family.width) :
    (∃ announced ∈ announcedPrefixes update af, announced.pfx = pfx ∧ ∃ counter,
      (state.ribs.get af).routeAt fsm.peerBgpId pfx =
        some (cloneOf counter (fsm.announcedRoute update af announced))) ∨
    (Mentions update af pfx ∧ (state.ribs.get af).routeAt fsm.peerBgpId pfx = none) ∨
    (state.ribs.get af).routeAt fsm.peerBgpId pfx = (sys.ribs.get af).routeAt fsm.peerBgpId pfx := by
  obtain ⟨valid, start, starts, run⟩ := applyUpdate_done sound done
  have soundStart : ∀ af, (start.ribs.get af).Invariant := by rw [starts.ribs]; exact sound
  have outcome := applied_outcome run soundStart (applyItems_inOrder fsm update (fsm.ignores code update)) af pfx
  simp only [Applying.routesFrom, starts.ribs] at outcome
  by_cases announces : ∃ announced,
    fsm.Announces update (fsm.applyItems update (fsm.ignores code update)) af pfx announced
  · obtain ⟨announced, counter, listed, stored⟩ := outcome.announced announces
    exact .inl ⟨announced, (announce_mem_applyItems.mp listed.1).2, listed.2.1, counter, stored⟩
  · have none := not_exists.mp announces
    by_cases withdrawn : .withdraw af pfx ∈ fsm.applyItems update (fsm.ignores code update)
    · exact .inr (.inl ⟨.inl (withdraw_mem_applyItems.mp withdrawn).2, outcome.withdrawn none withdrawn⟩)
    · exact .inr (.inr (outcome.kept none withdrawn))

/-- MED counts after such a message when it did before. -/
theorem applyUpdate_uniform (yields : Yields fsm update sys.ribs) (uniform : sys.ribs.Uniform) :
    state.ribs.Uniform := by
  obtain ⟨invariant, foreign⟩ := Sys.applied_tables sound done
  intro af pfx
  have sources : ∀ route, route ∈ (state.ribs.get af).routesOf pfx → route ∈ (sys.ribs.get af).routesOf pfx ∨
      route.sourceRouterId = fsm.peerBgpId ∧ ∃ announced ∈ announcedPrefixes update af, announced.pfx = pfx ∧
        ∃ counter, route = cloneOf counter (fsm.announcedRoute update af announced) := by
    intro route member
    rw [mem_routesOf_iff (invariant af)] at member
    rw [mem_routesOf_iff (sound af)]
    by_cases own : route.sourceRouterId = fsm.peerBgpId
    · rw [own] at member ⊢
      rcases applyUpdate_own sound done af pfx with ⟨announced, listed, place, counter, stored⟩ | ⟨-, gone⟩ | same
      · exact .inr ⟨rfl, announced, listed, place, counter, Option.some.inj (member.symm.trans stored)⟩
      · cases gone.symm.trans member
      · exact .inl (same.symm.trans member)
    · rw [foreign af _ own] at member
      exact .inl member
  -- A new route and an old one of another source.
  have mixed : ∀ new ∈ (state.ribs.get af).routesOf pfx, ∀ old ∈ (state.ribs.get af).routesOf pfx, new.med ≠ old.med →
      (new.sourceRouterId = fsm.peerBgpId ∧ ∃ announced ∈ announcedPrefixes update af, announced.pfx = pfx ∧
        ∃ counter, new = cloneOf counter (fsm.announcedRoute update af announced)) →
      ∃ asn, ribNeighborAs new = some asn ∧ ribNeighborAs old = some asn := by
    rintro new newIn old oldIn different ⟨own, announced, listed, place, counter, made⟩
    rw [mem_routesOf_iff (invariant af)] at newIn oldIn
    have other : old.sourceRouterId ≠ fsm.peerBgpId := by
      intro same
      rw [own] at newIn
      rw [same] at oldIn
      exact different (by rw [Option.some.inj (newIn.symm.trans oldIn)])
    rw [foreign af _ other, ← place] at oldIn
    have med : new.med = medOf update := by rw [made]; rfl
    obtain ⟨asn, first, second⟩ := yields.comparable af announced listed _ old other oldIn
      fun same => different (med.trans same.symm)
    exact ⟨asn, by rw [made]; exact second, first⟩
  intro a aIn b bIn different
  rcases sources a aIn with aOld | aNew
  · rcases sources b bIn with bOld | bNew
    · exact uniform af pfx a aOld b bOld different
    · obtain ⟨asn, first, second⟩ := mixed b bIn a aIn (Ne.symm different) bNew
      exact ⟨asn, second, first⟩
  · exact mixed a aIn b bIn different aNew

/-- After such a message, a best route of another source is what it was. -/
theorem applyUpdate_leads (yields : Yields fsm update sys.ribs) (uniform : state.ribs.Uniform) {af : Af}
    {pfx : Prefix af.family.width} {best : RouteEntry af.family.width}
    (found : (state.ribs.get af).bestExact pfx = some best) (other : best.source ≠ fsm.peerBgpId) :
    ((sys.ribs.get af).bestExact pfx).map RouteEntry.route = some best.route := by
  obtain ⟨invariant, foreign⟩ := Sys.applied_tables sound done
  have stored : (sys.ribs.get af).routeAt best.source pfx = some best.route := by
    rw [← foreign af _ other]
    exact bestExact_routeAt (invariant af) found
  have alone : Mentions update af pfx → (sys.ribs.get af).routeAt fsm.peerBgpId pfx = none := by
    intro mentioned
    refine (yields.apart af pfx mentioned).resolve_right fun empty => ?_
    cases (empty _ other).symm.trans stored
  refine bestExact_grown (sound af) (invariant af) (uniform af pfx) (fun route member => ?_) found
    ((mem_routesOf_iff (sound af)).mpr stored)
  rw [mem_routesOf_iff (sound af)] at member
  rw [mem_routesOf_iff (invariant af)]
  by_cases own : route.sourceRouterId = fsm.peerBgpId
  · rw [own] at member ⊢
    rcases applyUpdate_own sound done af pfx with ⟨announced, listed, place, -⟩ | ⟨mentioned, -⟩ | same
    · exact nomatch (alone (.inr ⟨announced, listed, place⟩)).symm.trans member
    · cases (alone mentioned).symm.trans member
    · exact same.trans member
  · rw [foreign af _ own]
    exact member

end Applied

end Fsm

namespace Sys

variable {code : MessageCode} {index : Nat} {call : Call} {old : Ribs} {sys before after : Sys}
  {af : Af} {entry : RouteEntry af.family.width}

/-- Only an established session has something to pass on, and never to the peer it came from. -/
theorem Due.receives {fsm : Fsm} (due : Due fsm af entry) :
    fsm.state = .established ∧ (entry.source = 0 ∨ entry.source ≠ fsm.peerBgpId) := by
  rw [Due, wants_added, Bool.and_eq_true, Fsm.receives_iff] at due
  exact due.1.1

theorem Due.same {first second : Fsm} (same : first.SameSession second) (due : Due second af entry) :
    Due first af entry := by
  rw [same] at due
  exact due

/-- A system between the parts of a call. -/
structure Orderly (sys : Sys) : Prop where
  sound : sys.Sound
  wired : sys.Wired
  uniform : sys.ribs.Uniform

/-- Where the best route is not the one of some earlier tables, every peer that may have it holds it. -/
def Abreast (old : Ribs) (sys : Sys) : Prop :=
  ∀ af entry, (sys.ribs.get af).bestExact entry.pfx = some entry →
    ((old.get af).bestExact entry.pfx).map RouteEntry.route = some entry.route ∨
    ∀ index < sys.count, Due (sys.fsm index) af entry →
      held index sys.trace ⟨af, entry.pfx⟩ = some (announcement af entry)

theorem abreast_start (sys : Sys) : Abreast sys.ribs sys := by
  intro af entry best
  rw [best]
  exact .inl rfl

theorem Aside.abreast (aside : Aside before after) (abreast : Abreast old before) : Abreast old after := by
  intro af entry best
  rw [aside.ribs] at best
  refine (abreast af entry best).imp_right fun told index present due => ?_
  rcases aside.sessions index with ⟨same, held⟩ | ⟨-, down, -⟩
  · rw [held]
    exact told index (by rw [← aside.setup.count]; exact present) (due.same same)
  · exact absurd due.receives.1 down

/-- Every phase of a call keeps the system orderly. -/
theorem Phase.orderly (phase : Phase index before after) (orderly : Orderly before) : Orderly after := by
  cases phase with
  | aside aside =>
    refine ⟨orderly.sound.same aside.ribs, orderly.wired.setup aside.setup, ?_⟩
    rw [aside.ribs]
    exact orderly.uniform
  | ended live => exact ⟨orderly.sound, orderly.wired.setup (setup_closes.close before index), orderly.uniform⟩
  | discarded af peer rib rest result discarded report published =>
    have sound := sound_set orderly.sound discarded.invariant rest
    have wired : Wired { before with ribs := before.ribs.set af rib, alloc := rest } :=
      orderly.wired.setup ⟨rfl, rfl, fun _ => rfl⟩
    refine ⟨sound.same published.same.1, wired.setup published.setup, ?_⟩
    rw [published.same.1]
    exact uniform_discarded orderly.uniform discarded

/-- The loss of a source is published to all sessions. -/
theorem Phase.abreast (phase : Phase index before after) (orderly : Orderly before) (abreast : Abreast old before) :
    Abreast old after := by
  cases phase with
  | aside aside => exact aside.abreast abreast
  | ended live =>
    intro af entry best
    refine (abreast af entry best).imp_right fun told other present due => ?_
    by_cases here : other = index
    · subst here
      exact absurd due.receives.1 (by simp [snapshotTeardown])
    · have same : (before.snapshotTeardown index).fsm other = before.fsm other := modify_fsm_other _ _ _ here
      rw [same] at due
      simp only [snapshotTeardown, observe, held_cons, Obs.heldBy, if_neg (Ne.symm here)]
      exact told other present due
  | discarded af peer rib rest result discarded report published =>
    intro other entry best
    rw [published.same.1] at best
    by_cases touched : ∃ change ∈ discardChanges af result, change.key = ⟨other, entry.pfx⟩
    · have explained := discardChanges_explain (orderly.sound af) orderly.uniform discarded report
      have wired : Wired { before with ribs := before.ribs.set af rib, alloc := rest } :=
        orderly.wired.setup ⟨rfl, rfl, fun _ => rfl⟩
      refine .inr fun listener present due => ?_
      rw [published.setup.count] at present
      rw [published.same.2] at due
      refine published.tells (audience_everyone wired present) due (bestView before.ribs) touched ?_
      rw [explained]
      simp only [bestView, best, Option.map_some]
    · have untouched : ∀ change ∈ discardChanges af result, change.key ≠ ⟨other, entry.pfx⟩ :=
        fun change member place => touched ⟨change, member, place⟩
      simp only [discardChanges_untouched (orderly.sound af) orderly.uniform discarded report untouched] at best
      refine (abreast other entry best).imp_right fun told listener present due => ?_
      rw [published.peers, RouteChange.foldl_barred _ fun change member place => absurd place (untouched change member)]
      rw [published.same.2] at due
      exact told listener (by rw [← published.setup.count]; exact present) due

/-- The events of an UPDATE reach all other sessions, and only routes of its own sender are new. -/
theorem Updated.abreast {update : UpdateMsg} {state : Applying} (updated : Updated code index update state before after)
    (orderly : Orderly before) (present : index < before.count) (identified : (before.fsm index).peerBgpId ≠ 0)
    (yields : (before.fsm index).Yields update before.ribs) : Orderly after ∧ Abreast before.ribs after := by
  obtain ⟨subcode, done⟩ := updated.done
  have published := updated.published
  have setup := setup_applied before index state
  have wired := orderly.wired.setup setup
  have tables := applied_tables orderly.sound done
  have uniform := Fsm.applyUpdate_uniform orderly.sound done yields orderly.uniform
  refine ⟨⟨fun af => by rw [published.same.1]; exact tables.1 af, wired.setup published.setup, ?_⟩,
    fun af entry best => ?_⟩
  · rw [published.same.1]
    exact uniform
  · rw [published.same.1] at best
    by_cases own : entry.source = (before.fsm index).peerBgpId
    · by_cases touched : ∃ change ∈ state.journal.changes, change.key = ⟨af, entry.pfx⟩
      · refine .inr fun listener inside due => ?_
        rw [published.setup.count] at inside
        rw [published.same.2] at due
        have different : listener ≠ index := by
          rintro rfl
          rw [modify_fsm_self] at due
          have heard := (due.same (Fsm.markRxCurrent_same (before.fsm listener))).receives.2
          rcases heard with zero | other
          · exact identified (own.symm.trans zero)
          · exact other own
        refine published.tells (audience_others orderly.wired setup present inside different) due (bestView before.ribs)
          touched ?_
        rw [Fsm.applyUpdate_explains orderly.sound done orderly.uniform uniform]
        exact congrArg _ best
      · refine .inl ?_
        rw [← Fsm.applyUpdate_untouched orderly.sound done orderly.uniform uniform fun change member place =>
          touched ⟨change, member, place⟩]
        exact congrArg _ best
    · exact .inl (Fsm.applyUpdate_leads orderly.sound done yields uniform best own)

theorem Aside.orderly (aside : Aside before after) (orderly : Orderly before) : Orderly after :=
  Phase.orderly (.aside aside : Phase 0 before after) orderly

/-- What a call does to the best routes has been passed on when it returns. -/
theorem Smooth.abreast (smooth : Smooth code index call before after) (orderly : Orderly before)
    (present : index < before.count)
    (identified : (before.fsm index).state = .established → (before.fsm index).peerBgpId ≠ 0)
    (yields : ∀ update, call = .packet (.update update) → (before.fsm index).Yields update before.ribs) :
    Orderly after ∧ Abreast before.ribs after := by
  cases smooth with
  | phases chain =>
    induction chain with
    | refl => exact ⟨orderly, abreast_start before⟩
    | tail _ phase ih => exact ⟨phase.orderly ih.1, phase.abreast ih.1 ih.2⟩
  | updated middle last update state asked early sound updated late =>
    have willing : (middle.fsm index).Yields update middle.ribs := by
      rw [early.ribs]
      exact (yields update asked).same (updated.session early)
    obtain ⟨later, abreast⟩ := updated.abreast (early.orderly orderly) (by rw [early.setup.count]; exact present)
      (updated.identified early identified) willing
    rw [early.ribs] at abreast
    exact ⟨late.orderly later, late.abreast abreast⟩
  | risen confirmed walked rises late =>
    have tables : after.ribs = before.ribs := late.ribs.trans rises.ribs
    have lasts := setup_lasts code before
    have setup := (rises.soundly lasts.delivers lasts.quiet (lasts.establish rises) lasts.advertising orderly.sound).2
    refine ⟨⟨orderly.sound.same tables, orderly.wired.setup (setup.trans late.setup), ?_⟩, fun af entry best => ?_⟩
    · rw [tables]
      exact orderly.uniform
    · rw [tables] at best
      exact .inl (congrArg _ best)

/-- A call with enough memory, and with an UPDATE that yields to other sources. -/
def Yielding (sys : Sys) (step : Step) : Prop :=
  step.alloc.Generous ∧ ∀ update, step.call = .packet (.update update) → (sys.fsm step.session).Yields update sys.ribs

section Runs

variable {members : List Member} {step : Step}

/-- One more call of a run. -/
theorem Reach.abreast (reached : Reach code Yielding (fun _ _ => False) (init members) sys)
    (permitted : Yielding sys step)
    (flawless : (sys.step code step).Flawless) (orderly : Orderly sys) (exporting : sys.Exporting) :
    (Orderly (sys.step code step) ∧ (sys.step code step).Exporting) ∧ Abreast sys.ribs (sys.step code step) := by
  rcases @step_cases code sys orderly.sound step with ⟨present, acts⟩ | same
  · obtain ⟨later, smooth⟩ := acts.smooth orderly.sound permitted.1 exporting flawless
    have answered : Orderly (sys.answer step) :=
      ⟨orderly.sound, orderly.wired.setup ⟨rfl, rfl, fun _ => rfl⟩, orderly.uniform⟩
    obtain ⟨orderlyNow, abreast⟩ := smooth.abreast answered present reached.identified permitted.2
    exact ⟨⟨orderlyNow, later⟩, abreast⟩
  · rw [same]
    exact ⟨⟨orderly, exporting⟩, abreast_start sys⟩

theorem Reach.orderly (reached : Reach code Yielding (fun _ _ => False) (init members) sys) (flawless : sys.Flawless) :
    Orderly sys ∧ sys.Exporting := by
  induction reached with
  | start => exact ⟨⟨init_sound members, init_wired members, init_uniform members⟩, init_exporting members⟩
  | @call sys step reached permitted ih =>
    obtain ⟨orderly, exporting⟩ := ih ((step_grows step (reached.sound (init_sound members))).flawless flawless)
    exact (reached.abreast permitted flawless orderly exporting).1
  | write ribs _ impossible => exact impossible.elim

/-- In every run in which nothing fails and every UPDATE yields to other sources, a call that changes the
best route of a prefix leaves every established peer that negotiated the family, is not the source of the
new best route and is not excluded by its outbound filter with that route as the last message about it. -/
theorem best_change_announced {af : Af} {pfx : Prefix af.family.width} {entry : RouteEntry af.family.width}
    {filter : Option Filter} (reached : Reach code Yielding (fun _ _ => False) (init members) sys)
    (permitted : Yielding sys step) (flawless : (sys.step code step).Flawless)
    (best : ((sys.step code step).ribs.get af).bestExact pfx = some entry)
    (changed : ((sys.ribs.get af).bestExact pfx).map RouteEntry.route ≠ some entry.route)
    (live : ((sys.step code step).fsm index).state = .established)
    (negotiated : ((sys.step code step).fsm index).sendRoutes af = true)
    (foreign : entry.source ≠ ((sys.step code step).fsm index).peerBgpId)
    (configured : ((sys.step code step).fsm index).params.outFilter af = filter.map fun filter => filter.permits)
    (allowed : (filter.all fun filter => filter.permits entry.route) = true) :
    held index (sys.step code step).trace ⟨af, pfx⟩ = some (announcement af entry) := by
  obtain ⟨orderly, exporting⟩ :=
    reached.orderly ((step_grows step (reached.sound (init_sound members))).flawless flawless)
  obtain ⟨⟨orderlyNow, exportingNow⟩, abreast⟩ := reached.abreast permitted flawless orderly exporting
  obtain rfl : entry.pfx = pfx := (bestExact_mem (orderlyNow.sound af) best).2
  have exportable := exportingNow af entry.source entry.pfx entry.route
    (bestExact_routeAt (orderlyNow.sound af) best)
  have due : Due ((sys.step code step).fsm index) af entry := by
    have verdict := exportable.exports_eq ((sys.step code step).fsm index) entry.source configured
    rw [allowed] at verdict
    rw [Due, wants_added, Bool.and_eq_true, Fsm.receives_iff]
    exact ⟨⟨⟨live, .inr foreign⟩, negotiated⟩, verdict⟩
  have here : index < (sys.step code step).count := (Reach.call step reached permitted).up_present (.inr live)
  exact (abreast af entry best).resolve_left changed index here due

/-- A finite test for the steps of a sample: the sender has no route for what it names, and all routes have
the same MED. -/
def yieldsPlainly (sys : Sys) (step : Step) : Bool :=
  step.alloc.isEmpty &&
    match step.call with
    | .packet (.update update) => [Af.ipv4, Af.ipv6].all fun af =>
      ((withdrawnPrefixes update af).all fun pfx =>
        ((sys.ribs.get af).routeAt (sys.fsm step.session).peerBgpId pfx).isNone) &&
      (announcedPrefixes update af).all fun announced =>
        ((sys.ribs.get af).routeAt (sys.fsm step.session).peerBgpId announced.pfx).isNone &&
          (sys.ribs.get af).routes.entries.all fun entry => entry.route.med == medOf update
    | _ => true

theorem yieldsPlainly_yielding (plain : yieldsPlainly sys step = true) : Yielding sys step := by
  simp only [yieldsPlainly, Bool.and_eq_true, List.isEmpty_iff] at plain
  refine ⟨by rw [plain.1]; exact Allocator.generous_nil, fun update asked => ?_⟩
  have checked := plain.2
  simp only [asked, List.all_eq_true, Bool.and_eq_true, Option.isNone_iff_eq_none, beq_iff_eq] at checked
  have every : ∀ af, af ∈ [Af.ipv4, Af.ipv6] := by rintro ⟨⟩ <;> decide
  refine ⟨fun af pfx mentioned => .inl ?_, fun af announced listed source route _ stored different => ?_⟩
  · rcases mentioned with withdrawn | ⟨announced, listed, rfl⟩
    · exact (checked af (every af)).1 pfx withdrawn
    · exact ((checked af (every af)).2 announced listed).1
  · obtain ⟨entry, found, rfl⟩ := Option.map_eq_some_iff.mp stored
    have member := Hashmap.mem_entries_of_mem_moduloChain (List.mem_of_find?_eq_some found)
    exact absurd (((checked af (every af)).2 announced listed).2 entry member) different

/-- Two neighbours, the second of which has a route to 192.0.2.0/24. -/
def sampleRival : Sys :=
  (init [.session (sampleParams 65002), .session (sampleParams 65003)]).run libbgpCode
    (sampleUp 0 65002 0x0a000002 ++ sampleUp 1 65003 0x0a000003 ++
      [calmStep 1 (.packet (.update (sampleUpdate [] [65003, 65009] [⟨0xc0000200, 24⟩])))])

/-- The first neighbour announces a better route. -/
def sampleOvertaken : Sys :=
  sampleRival.step libbgpCode (calmStep 0 (.packet (.update (sampleUpdate [] [65002] [⟨0xc0000200, 24⟩]))))

theorem best_change_announced_sample : held 1 sampleOvertaken.trace ⟨.ipv4, ⟨0xc0000200, 24⟩⟩ =
    ((sampleOvertaken.ribs.get .ipv4).bestExact ⟨0xc0000200, 24⟩).map (announcement .ipv4) := by
  have source : ((sampleOvertaken.ribs.get .ipv4).bestExact ⟨0xc0000200, 24⟩).map RouteEntry.source =
      some 0x0a000002 := by decide +kernel
  have before : ((sampleRival.ribs.get .ipv4).bestExact ⟨0xc0000200, 24⟩).map RouteEntry.source = some 0x0a000003 := by
    decide +kernel
  obtain ⟨entry, best, own⟩ := Option.map_eq_some_iff.mp source
  rw [best]
  refine @best_change_announced libbgpCode 1 sampleRival [.session (sampleParams 65002), .session (sampleParams 65003)]
    _ .ipv4 _ entry none (reach_permitted (fun _ _ => yieldsPlainly_yielding) .start (by decide +kernel))
    (yieldsPlainly_yielding (by decide +kernel)) (flawless_of_trace (by decide +kernel)) best ?_ (by decide +kernel)
    (by decide +kernel) ?_ rfl rfl
  · intro same
    obtain ⟨old, found, route⟩ := Option.map_eq_some_iff.mp same
    rw [found, Option.map_some, RouteEntry.source, route] at before
    exact absurd (own.symm.trans (Option.some.inj before)) (by decide)
  · rw [own]
    decide +kernel

/-- Two neighbours with a route to 192.0.2.0/24; the first one had the better route and withdraws it. -/
def sampleOutdone : Sys :=
  (init [.session (sampleParams 65002), .session (sampleParams 65003)]).run libbgpCode
    (sampleUp 0 65002 0x0a000002 ++ sampleUp 1 65003 0x0a000003 ++
      [calmStep 0 (.packet (.update (sampleUpdate [] [65002] [⟨0xc0000200, 24⟩]))),
        calmStep 1 (.packet (.update (sampleUpdate [] [65003, 65009] [⟨0xc0000200, 24⟩])))])

def sampleBereft : Sys :=
  sampleOutdone.step libbgpCode (calmStep 0 (.packet (.update (sampleUpdate [⟨0xc0000200, 24⟩] [65002] []))))

/-- The session of the first neighbour publishes the replacement itself, so nothing is sent to it: it has no
route for the prefix, although it may have the new best one. -/
theorem best_change_kept_from_publisher :
    ((sampleOutdone.ribs.get .ipv4).bestExact ⟨0xc0000200, 24⟩).map RouteEntry.source = some 0x0a000002 ∧
    ((sampleBereft.ribs.get .ipv4).bestExact ⟨0xc0000200, 24⟩).map RouteEntry.source = some 0x0a000003 ∧
    (sampleBereft.fsm 0).state = .established ∧ (sampleBereft.fsm 0).sendRoutes .ipv4 = true ∧
    (sampleBereft.fsm 0).peerBgpId = 0x0a000002 ∧ ((sampleBereft.fsm 0).params.outFilter .ipv4).isNone = true ∧
    (sampleBereft.fsm 0).isIbgp = false ∧ (∀ moment ∈ sampleBereft.trace, fails moment.obs = false) ∧
    held 0 sampleBereft.trace ⟨.ipv4, ⟨0xc0000200, 24⟩⟩ = none := by
  decide +kernel

end Runs

end Sys

end Libbgp
