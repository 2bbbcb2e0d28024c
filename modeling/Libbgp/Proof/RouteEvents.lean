/-
A published ROUTE_ADDED names a stored route.
-/

import Libbgp.Proof.Publication
import Libbgp.Proof.RouteChanges
import Libbgp.Construction.Message

namespace Libbgp

open Library

/-- If a ROUTE_ADDED was published, the tables of that moment have a route of its source for its prefix. -/
def Moment.honest (moment : Moment) : Bool :=
  match moment.obs with
  | .published _ (.routeAdded af source pfx _) => ((moment.ribs.get af).routeAt source pfx).isSome
  | _ => true

namespace Sys

/-- Every published ROUTE_ADDED named a stored route. -/
def Honest (sys : Sys) : Prop := ∀ moment ∈ sys.trace, moment.honest = true

instance (sys : Sys) : Decidable sys.Honest := inferInstanceAs (Decidable (∀ _ ∈ _, _))

def Tells (before after : Sys) : Prop := before.Honest → after.Honest

theorem tells_news {before after : Sys} {news : List Moment} (trace : after.trace = news ++ before.trace)
    (honest : ∀ moment ∈ news, moment.honest = true) : Tells before after := by
  intro earlier moment member
  rw [trace] at member
  rcases List.mem_append.mp member with recent | old
  · exact honest moment recent
  · exact earlier moment old

theorem tells_observe (sys : Sys) {obs : Obs} (honest : Moment.honest ⟨obs, sys.fsm, sys.ribs⟩ = true) :
    Tells sys (sys.observe obs) :=
  @tells_news _ _ [_] rfl (List.forall_mem_singleton.mpr honest)

theorem tells_close (sys : Sys) (index : Nat) : Tells sys (sys.snapshotTeardown index) :=
  @tells_news sys (sys.snapshotTeardown index) [_] rfl (List.forall_mem_singleton.mpr rfl)

theorem tells_delivers : Delivers Tells where
  refl _ := id
  trans left right := right ∘ left
  alloc _ _ _ := id
  sends _ _ := id
  observe sys obs delivery := by
    refine tells_observe sys ?_
    cases obs <;> first | rfl | exact delivery.elim

theorem Preparing.honest {count : Nat} {moment : Moment} (preparing : Preparing count moment.obs) :
    moment.honest = true := by
  obtain ⟨obs, fsm, ribs⟩ := moment
  cases obs with
  | published publisher event => cases event <;> first | rfl | exact preparing.elim
  | _ => rfl

theorem Quiet.tells {before after : Sys} (quiet : Quiet before after) : Cleanly Tells before after :=
  let ⟨news, trace, preparing⟩ := quiet.preparing
  ⟨⟨news, trace⟩, fun _ => tells_news trace fun moment member => (preparing moment member).honest⟩

section Publishing

variable {code : MessageCode} {fail : Fail} {sys before after : Sys}
  (torn : ∀ index generation sys, Soundly Grows sys (fail index generation sys))

include torn

/-- A published change is honest. -/
theorem publishAs_tells {change : RouteChange} (present : change.Present sys.ribs) (added withdrawn : Nat)
    (peer : RouterId) : Soundly (Cleanly Tells) sys (publishAs code fail added withdrawn peer sys change) := by
  have lifted := tells_delivers.cleanly.soundly
  have failing := @failing_cleanly Tells fail torn
  cases change with
  | added af route =>
    have spent := (updateFromRoute_built af route).spent sys.alloc
    simp only [publishAs, publishAdded]
    split
    · rename_i update rest built
      rw [built] at spent
      refine lifted.trans (lifted.alloc sys rest spent) (lifted.publishEvent failing _ _ _ ?_)
      exact .ofObserve ⟨⟨[_], rfl⟩, fun _ => tells_observe _ (Option.isSome_iff_ne_none.mpr present)⟩
    · rename_i rest _ built
      rw [built] at spent
      exact lifted.alloc sys rest spent
  | withdrawn af pfx =>
    exact lifted.publishEvent failing _ _ _ (.ofObserve ⟨⟨[_], rfl⟩, fun _ => tells_observe _ rfl⟩)

/-- The tables stay as they are while changes are published, so routes that were stored before are still
stored when their turn comes. -/
theorem publishAll_tells {changes : List RouteChange} (present : ∀ change ∈ changes, change.Present sys.ribs)
    (added withdrawn : Nat) (peer : RouterId) :
    Soundly (Cleanly Tells) sys (changes.foldl (publishAs code fail added withdrawn peer) sys) := by
  induction changes generalizing sys with
  | nil => exact tells_delivers.cleanly.soundly.refl sys
  | cons change rest ih =>
    intro sound
    obtain ⟨soundNext, head⟩ := @publishAs_tells code fail sys torn change (present change List.mem_cons_self) added
      withdrawn peer sound
    obtain ⟨-, -, same⟩ := @publishAs_same code fail torn added withdrawn peer sys change sound
    obtain ⟨soundLast, grows, -⟩ := @publishAll_same code fail torn added withdrawn peer rest _ soundNext
    refine ⟨soundLast, head.1.trans grows, fun clean => ?_⟩
    have middle := grows.clean clean
    have later := ih (fun other member => by
      rw [(same middle).1]
      exact present other (List.mem_cons_of_mem _ member)) soundNext
    exact later.2.2 clean ∘ head.2 middle

/-- The events of discarded routes are honest. -/
theorem discardFamilyPublish_tells (sys : Sys) (af : Af) (peer : RouterId) :
    Soundly (Cleanly Tells) sys (sys.discardFamilyPublish code fail af peer) := by
  intro sound
  obtain ⟨rib, rest, changes, discarded, spent, result, report⟩ :=
    @discardFamilyPublish_cases code fail sys sound af peer
  have removed : Soundly (Cleanly Tells) sys { sys with ribs := sys.ribs.set af rib, alloc := rest } := fun sound =>
    ⟨sound_set sound discarded.invariant rest, ⟨[], rfl⟩, fun _ => id⟩
  have present : ∀ change ∈ changes, change.Present (sys.ribs.set af rib) := by
    rcases report with ⟨rfl, -⟩ | ⟨result, ⟨active, -, -, -, replacements⟩, rfl⟩
    · intro _ impossible
      cases impossible
    · intro change member
      rcases List.mem_append.mp member with lost | replaced
      · obtain ⟨pfx, -, rfl⟩ := List.mem_map.mp lost
        trivial
      · obtain ⟨route, chosen, rfl⟩ := List.mem_map.mp replaced
        rw [replacements] at chosen
        obtain ⟨pfx, -, best⟩ := List.mem_filterMap.mp chosen
        obtain ⟨entry, found, rfl⟩ := Option.map_eq_some_iff.mp best
        have place : entry.pfx = pfx := (RibImpl.bestExact_mem discarded.invariant found).2
        have stored := RibImpl.bestExact_routeAt discarded.invariant found
        rw [← place] at stored
        rw [RouteChange.Present, Ribs.get_set]
        intro absent
        cases absent.symm.trans stored
  rw [result]
  exact tells_delivers.cleanly.soundly.trans removed (publishAll_tells torn present 0 0 peer) sound

theorem discardPeerRoutesPublish_tells (sys : Sys) (peer : RouterId) :
    Soundly (Cleanly Tells) sys (sys.discardPeerRoutesPublish code fail peer) :=
  tells_delivers.cleanly.soundly.trans (discardFamilyPublish_tells torn sys .ipv4 peer)
    (discardFamilyPublish_tells torn _ .ipv6 peer)

theorem Loses.tells {index : Nat} (loses : Loses code fail index before after) :
    Soundly (Cleanly Tells) before after := by
  have lifted := tells_delivers.cleanly.soundly
  obtain ⟨-, middle, discarded, told⟩ := loses.parts tells_delivers.cleanly Quiet.tells
    (by rintro before _ peer ⟨state, -, -, rfl⟩; exact ⟨⟨[], rfl⟩, fun _ => id⟩) (failing_cleanly torn)
    (discardPeerRoutesPublish_tells torn)
  have closing : Soundly (Cleanly Tells) before (before.snapshotTeardown index) := fun sound =>
    ⟨sound, ⟨[_], rfl⟩, fun _ => tells_close before index⟩
  have ended : Soundly (Cleanly Tells) middle (middle.observe (.published 0 (.sessionDown index))) :=
    .ofObserve ⟨⟨[_], rfl⟩, fun _ => tells_observe _ rfl⟩
  exact lifted.trans closing (lifted.trans discarded (lifted.trans ended told))

end Publishing

section Runs

variable {code : MessageCode} {start sys before after : Sys} {index : Nat}

theorem teardownAt_tells (fuel index : Nat) (generation : UInt64) (sys : Sys) :
    Soundly (Cleanly Tells) sys (teardownAt code fuel index generation sys) := by
  rcases @teardownAt_cases code fuel index generation sys with same | ⟨less, -, loses⟩
  · rw [same]
    exact tells_delivers.cleanly.soundly.refl sys
  · exact loses.tells (grows_closes.teardownAt less)

theorem Advertising.tells (taken : Advertising index before after) : Cleanly Tells before after := by
  cases taken with
  | quiet taken => exact taken.tells
  | sent => exact ⟨⟨[_], rfl⟩, fun _ => tells_observe _ rfl⟩

theorem Rises.tells {walked confirmed : Sys} (rises : Rises index before walked confirmed) :
    Soundly (Cleanly Tells) before walked :=
  rises.soundly tells_delivers.cleanly Quiet.tells ⟨⟨[], rfl⟩, fun _ => id⟩ Advertising.tells

/-- The events of an UPDATE are honest. -/
theorem tells_applied {update : UpdateMsg} {subcode : UInt8} {state : Applying}
    (live : (sys.fsm index).state = .established)
    (done : (sys.fsm index).applyUpdate code update sys.ribs sys.alloc = (.ok, subcode, state)) :
    Soundly (Cleanly Tells) sys (sys.publishApplied code index state) := by
  intro sound
  have soundNow := (applied_tables sound done).1
  have torn := @Closes.fail code _ grows_closes sys
  obtain ⟨soundLast, grows⟩ := @Bears.publishUpdateEvents code _ _ grows_closes.toBears.soundly
    (fun index generation sys _ => torn index generation sys) index (sys.fsm index).sessionGeneration
    (sys.fsm index).peerBgpId state.journal.changes (sys.storeApplied index state) soundNow
  refine ⟨soundLast, grows, fun clean => ?_⟩
  have events := applied_events sound live done clean
  rw [events] at clean ⊢
  have present := Fsm.applyUpdate_present sound done
  exact (@publishAll_tells code _ (sys.storeApplied index state) torn _ present _ _ _ soundNow).2.2 clean

/-- Every event of a call is honest. -/
theorem tells_carries (code : MessageCode) (index : Nat) (start : Sys) : Carries code index start (Cleanly Tells) where
  toDelivers := tells_delivers.cleanly
  quiet := Quiet.tells
  opening taken :=
    let ⟨news, trace, preparing⟩ := taken.preparing
    ⟨⟨news, trace⟩, fun _ => tells_news trace fun moment member => (preparing moment member).honest⟩
  shut sys index _ := ⟨⟨[_], rfl⟩, fun _ => tells_close sys index⟩
  undone := by
    rintro before _ - live ⟨state, -, -, rfl⟩
    exact ⟨⟨[], rfl⟩, fun _ => id⟩
  applied _ _ _ _ _ live done := tells_applied live done
  lost := fun loses => loses.tells (grows_closes.teardownAt _)
  up rises := tells_delivers.cleanly.soundly.trans rises.tells
    (.ofObserve ⟨⟨[_], rfl⟩, fun _ => tells_observe _ rfl⟩)
  down rises _ := tells_delivers.cleanly.soundly.trans rises.tells (teardownAt_tells _ _ _ _)

/-- In every run in which no message about a route event fails, whatever the calls are and whatever the
application stores in between, a ROUTE_ADDED is only published while its source has a route for its prefix. -/
theorem added_routes_stored {members : List Member}
    (reached : Reach code (fun _ _ => True) (fun _ _ => True) (init members) sys) (clean : sys.Clean) : sys.Honest := by
  have begins : (init members).Clean → (init members).Honest := by
    intro _ moment member
    rw [(init_fresh members).trace] at member
    cases member
  have called : ∀ (sys : Sys) step, sys.Sound → (sys.Clean → sys.Honest) → True →
      (sys.step code step).Clean → (sys.step code step).Honest := by
    intro sys step sound kept _ clean
    have told := (tells_carries code _ (sys.answer step)).step step sound ⟨⟨[], rfl⟩, fun _ => id⟩
    exact told.2 clean (kept (told.1.clean clean))
  exact (reached.keeps (init_sound members) begins called fun _ _ kept _ => kept).2 clean

end Runs

/-- Two neighbours that both know 192.0.3.0/24; the first one has the better route, and 192.0.2.0/24 too. -/
def samplePair : Sys :=
  (Sys.init [.session (sampleParams 65002), .session (sampleParams 65003)]).run libbgpCode
    (sampleUp 0 65002 0x0a000002 ++ sampleUp 1 65003 0x0a000003 ++
      [calmStep 1 (.packet (.update (sampleUpdate [] [65003, 65009] [⟨0xc0000300, 24⟩]))),
        calmStep 0 (.packet (.update (sampleUpdate [] [65002] [⟨0xc0000200, 24⟩, ⟨0xc0000300, 24⟩])))])

/-- The first neighbour withdraws both routes. -/
def sampleWithdrawal (sends : List Err) : Step :=
  ⟨0, .packet (.update (sampleUpdate [⟨0xc0000200, 24⟩, ⟨0xc0000300, 24⟩] [65002] [])), [], sends⟩

theorem added_routes_stored_sample : (samplePair.step libbgpCode (sampleWithdrawal [])).Honest :=
  added_routes_stored (.call _ (reach_run _ _ fun _ _ _ => trivial) trivial) (clean_of_trace (by decide +kernel))

/-- The first message about the withdrawals fails, so the second session is torn down and its routes are
discarded, but its route is still announced as the new best one. -/
theorem added_route_discarded : ¬ (samplePair.step libbgpCode (sampleWithdrawal [.invalid])).Honest := by
  decide +kernel

end Sys

end Libbgp
