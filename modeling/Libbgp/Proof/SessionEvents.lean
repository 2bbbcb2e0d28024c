/-
The events about the start and the end of a session.
-/

import Libbgp.Proof.SessionState

namespace Libbgp

open Library

namespace Sys

variable {code : MessageCode} {start sys before after : Sys} {index : Nat} {owed : Prop}
  {obs : Obs} {other : Nat} {walked confirmed : Sys}

/-- The start or the end of a session as an event on the bus. -/
def sessionEvent (index : Nat) : Obs → Option Bool
  | .published _ (.sessionUp session) => if session = index then some true else none
  | .published _ (.sessionDown session) => if session = index then some false else none
  | _ => none

/-- The events about one session, the newest first: `true` for SESSION_UP. -/
def sessionEvents (index : Nat) (trace : List Moment) : List Bool :=
  trace.filterMap fun moment => sessionEvent index moment.obs

/-- Starts and ends take turns, and the oldest event is a start. -/
def alternates : List Bool → Bool
  | [] => true
  | up :: rest => (up != rest.headD false) && alternates rest

/-- The events take turns, and the last one tells whether the session is established, unless its end is
still to be announced. -/
structure Balanced (index : Nat) (owed : Prop) (sys : Sys) : Prop where
  turns : alternates (sessionEvents index sys.trace) = true
  last : (sessionEvents index sys.trace).headD false = true ↔ (sys.fsm index).state = .established ∨ owed
  exclusive : (sys.fsm index).state = .established → ¬ owed

/-- No message of the first advertisement to a session failed. -/
def Advertised (index : Nat) (sys : Sys) : Prop := ∀ moment ∈ sys.trace, moment.obs ≠ .failed index .advertise

/-- Whether an observation is a certain failure. -/
instance decidableFailed (obs : Obs) (index : Nat) (cause : Cause) : Decidable (obs = .failed index cause) :=
  match obs with
  | .failed session other => decidable_of_iff (session = index ∧ other = cause) (by simp)
  | .received _ _ => isFalse (by simp)
  | .published _ _ => isFalse (by simp)
  | .delivered _ _ => isFalse (by simp)
  | .sent _ _ => isFalse (by simp)
  | .closed _ => isFalse (by simp)
  | .notified _ _ _ => isFalse (by simp)

instance (index : Nat) (sys : Sys) : Decidable (Advertised index sys) :=
  inferInstanceAs (Decidable (∀ moment ∈ sys.trace, moment.obs ≠ .failed index .advertise))

/-- Neither the events about a session nor whether it is established change. -/
structure Unheard (index : Nat) (before after : Sys) : Prop where
  grows : Grows before after
  events : sessionEvents index after.trace = sessionEvents index before.trace
  state : (after.fsm index).state = .established ↔ (before.fsm index).state = .established

theorem Unheard.balanced (unheard : Unheard index before after) (balanced : Balanced index owed before) :
    Balanced index owed after := by
  refine ⟨?_, ?_, fun live => ?_⟩
  · rw [unheard.events]
    exact balanced.turns
  · rw [unheard.events, balanced.last, unheard.state]
  · exact balanced.exclusive (unheard.state.mp live)

def Balances (index : Nat) (before after : Sys) : Prop :=
  Grows before after ∧ (Advertised index after → ∀ owed, Balanced index owed before → Balanced index owed after)

theorem Unheard.balances (unheard : Unheard index before after) : Balances index before after :=
  ⟨unheard.grows, fun _ _ => unheard.balanced⟩

theorem Grows.advertised (grows : Grows before after) (advertised : Advertised index after) : Advertised index before :=
  fun moment member => advertised moment (grows.mem member)

theorem unheard_observe (sys : Sys) (other : sessionEvent index obs = none) : Unheard index sys (sys.observe obs) :=
  ⟨⟨[_], rfl⟩, by simp [sessionEvents, other], Iff.rfl⟩

theorem sessionEvent_preparing {count : Nat} (preparing : Preparing count obs) : sessionEvent index obs = none := by
  unfold sessionEvent
  split
  · exact False.elim preparing
  · exact False.elim preparing
  · rfl

theorem unheard_prepared
    (prepared : ∃ news, after.trace = news ++ before.trace ∧ ∀ moment ∈ news, Preparing before.count moment.obs)
    (state : (after.fsm index).state = .established ↔ (before.fsm index).state = .established) :
    Unheard index before after := by
  obtain ⟨news, trace, preparing⟩ := prepared
  refine ⟨⟨news, trace⟩, ?_, state⟩
  have silent : news.filterMap (fun moment => sessionEvent index moment.obs) = [] :=
    List.filterMap_eq_nil_iff.mpr fun moment member => sessionEvent_preparing (preparing moment member)
  rw [sessionEvents, trace, List.filterMap_append, silent, List.nil_append, sessionEvents]

theorem Quiet.unheard (quiet : Quiet before after) : Unheard index before after :=
  unheard_prepared quiet.preparing (by rw [quiet.same index])

theorem Opening.unheard (taken : Opening start before after) : Unheard index before after := by
  refine unheard_prepared taken.preparing ?_
  rcases taken.touches index with same | ⟨down, still⟩
  · rw [same]
  · exact ⟨fun live => absurd live still, fun live => absurd live down⟩

theorem unheard_close (sys : Sys) (spared : index = other → (sys.fsm index).state ≠ .established) :
    Unheard index sys (sys.snapshotTeardown other) := by
  refine ⟨⟨[_], rfl⟩, rfl, ?_⟩
  by_cases here : index = other
  · subst here
    simp only [snapshotTeardown, observe_fsm, modify_fsm_self, Fsm.snapshotTeardown_state]
    exact ⟨by simp, fun live => absurd live (spared rfl)⟩
  · simp only [snapshotTeardown, observe_fsm, modify_fsm_other _ _ _ here]

/-- What happens inside a call keeps the events balanced. -/
theorem balances_endures (index : Nat) : Endures (Balances index) where
  refl sys := ⟨grows_closes.refl sys, fun _ _ balanced => balanced⟩
  trans left right := ⟨left.1.trans right.1, fun advertised owed balanced =>
    right.2 advertised owed (left.2 (right.1.advertised advertised) owed balanced)⟩
  alloc sys rest spent := Unheard.balances ⟨⟨[], rfl⟩, rfl, Iff.rfl⟩
  sends sys rest := Unheard.balances ⟨⟨[], rfl⟩, rfl, Iff.rfl⟩
  observe sys obs routine := by
    refine (unheard_observe sys ?_).balances
    unfold sessionEvent
    split
    · exact False.elim routine
    · exact False.elim routine
    · rfl
  discard sys af rib peer rest _ _ _ := Unheard.balances ⟨⟨[], rfl⟩, rfl, Iff.rfl⟩
  quiet taken := taken.unheard.balances
  undone := by
    rintro before _ peer ⟨state, -, -, rfl⟩
    exact Unheard.balances ⟨⟨[], rfl⟩, rfl, Iff.rfl⟩

/-- The end of a session is announced once. -/
theorem loses_balances {fail : Fail}
    (failing : ∀ other generation sys, Soundly (Balances index) sys (fail other generation sys))
    (loses : Loses code fail other before after) : Soundly (Balances index) before after := by
  have lifted := (balances_endures index).toBears.soundly
  obtain ⟨live, middle, discarded, told⟩ := (balances_endures index).parts failing loses
  by_cases here : index = other
  · subst here
    intro sound
    have first := discarded sound
    have second := told first.1
    have grows : Grows before after :=
      (@grows_closes.close before index).trans (first.2.1.trans ((@grows_closes.ended middle index).trans second.2.1))
    refine ⟨second.1, grows, fun advertised owed balanced => ?_⟩
    have early : Advertised index middle :=
      Grows.advertised ((@grows_closes.ended middle index).trans second.2.1) advertised
    -- The session is closed while its last event is still a start.
    have closed : Balanced index True (before.snapshotTeardown index) := by
      refine ⟨balanced.turns, ?_, fun impossible => ?_⟩
      · exact balanced.last.trans ⟨fun _ => .inr trivial, fun _ => .inl live⟩
      · simp [snapshotTeardown] at impossible
    have owing := first.2.2 early True closed
    have ended : Balanced index owed (middle.observe (.published 0 (.sessionDown index))) := by
      have down : (middle.fsm index).state ≠ .established := fun live => owing.exclusive live trivial
      have last := owing.last.mpr (.inr trivial)
      have events : sessionEvents index (middle.observe (.published 0 (.sessionDown index))).trace =
          false :: sessionEvents index middle.trace := by
        simp [sessionEvents, sessionEvent]
      refine ⟨?_, ?_, fun live => absurd live down⟩
      · rw [events, alternates, last, owing.turns]
        rfl
      · rw [events]
        refine ⟨by simp, ?_⟩
        rintro (still | owed)
        · exact absurd still down
        · exact absurd owed (balanced.exclusive live)
    exact second.2.2 advertised owed ended
  · have closing : Soundly (Balances index) before (before.snapshotTeardown other) := fun sound =>
      ⟨sound, (unheard_close before fun same => absurd same here).balances⟩
    have different : other ≠ index := fun same => here same.symm
    have ended : Balances index middle (middle.observe (.published 0 (.sessionDown other))) :=
      (unheard_observe middle (by simp [sessionEvent, different])).balances
    exact lifted.trans closing (lifted.trans discarded (lifted.trans (.ofObserve ended) told))

theorem Advertising.unheard (taken : Advertising other before after) : Unheard index before after := by
  cases taken with
  | quiet taken => exact taken.unheard
  | sent => exact ⟨⟨[_], rfl⟩, rfl, Iff.rfl⟩

theorem Unheard.trans {first second third : Sys} (left : Unheard index first second)
    (right : Unheard index second third) : Unheard index first third :=
  ⟨left.grows.trans right.grows, right.events.trans left.events, right.state.trans left.state⟩

theorem unheard_chain {step : Sys → Sys → Prop}
    (each : ∀ {before after}, step before after → Unheard index before after)
    (chain : Relation.ReflTransGen step before after) : Unheard index before after := by
  induction chain with
  | refl => exact ⟨⟨[], rfl⟩, rfl, Iff.rfl⟩
  | tail _ taken ih => exact ih.trans (each taken)

theorem teardownAt_balances (fuel other : Nat) (generation : UInt64) (sys : Sys) :
    Soundly (Balances index) sys (teardownAt code fuel other generation sys) :=
  teardownAt_relates (balances_endures index).toBears.soundly.refl
    (fun _ _ _ _ failing => loses_balances failing) fuel other
    generation sys

theorem Rises.unheard (rises : Rises other before walked confirmed) (different : index ≠ other) :
    Unheard index before walked := by
  have risen : Unheard index confirmed (confirmed.modify other Fsm.establish) :=
    ⟨⟨[], rfl⟩, rfl, by rw [modify_fsm_other _ _ _ different]⟩
  exact ((unheard_chain Quiet.unheard rises.ready).trans risen).trans (unheard_chain Advertising.unheard rises.walked)

/-- A session that comes up announces it once. -/
theorem rises_balanced (rises : Rises other before walked confirmed) (balanced : Balanced index False before) :
    Balanced index False (walked.observe (.published 0 (.sessionUp other))) := by
  by_cases here : index = other
  · subst here
    have now := (unheard_chain Quiet.unheard rises.ready).balanced balanced
    have walk : Unheard index (confirmed.modify index Fsm.establish) walked :=
      unheard_chain Advertising.unheard rises.walked
    have down : (confirmed.fsm index).state ≠ .established := by simp [rises.confirming]
    have live : (walked.fsm index).state = .established := walk.state.mpr (by simp [Fsm.establish])
    have last : (sessionEvents index confirmed.trace).headD false = false := by
      rw [← Bool.not_eq_true, now.last]
      simp [down]
    have events : sessionEvents index (walked.observe (.published 0 (.sessionUp index))).trace =
        true :: sessionEvents index confirmed.trace := by
      rw [← show sessionEvents index walked.trace = sessionEvents index confirmed.trace from walk.events]
      simp [sessionEvents, sessionEvent]
    refine ⟨?_, ?_, fun _ => not_false⟩
    · rw [events, alternates, last, now.turns]
      rfl
    · rw [events]
      exact ⟨fun _ => .inl live, fun _ => rfl⟩
  · have different : other ≠ index := fun same => here same.symm
    exact ((rises.unheard here).trans (unheard_observe walked (by simp [sessionEvent, different]))).balanced balanced

/-- The same between calls, when no end of a session is owed. -/
def Turns (index : Nat) (before after : Sys) : Prop :=
  Grows before after ∧ (Advertised index after → Balanced index False before → Balanced index False after)

theorem Balances.turns (balances : Balances index before after) : Turns index before after :=
  ⟨balances.1, fun advertised => balances.2 advertised False⟩

/-- Every call keeps the events of a session balanced. -/
theorem turns_carries (code : MessageCode) (acting : Nat) (start : Sys) (index : Nat) :
    Carries code acting start (Turns index) where
  refl sys := ((balances_endures index).refl sys).turns
  trans left right := ⟨left.1.trans right.1, fun advertised balanced =>
    right.2 advertised (left.2 (right.1.advertised advertised) balanced)⟩
  alloc sys rest spent := ((balances_endures index).alloc sys rest spent).turns
  sends sys rest := ((balances_endures index).sends sys rest).turns
  observe sys obs delivery := ((balances_endures index).observe sys obs delivery.routine).turns
  quiet taken := taken.unheard.balances.turns
  opening taken := taken.unheard.balances.turns
  shut sys other down := (unheard_close sys fun same => same ▸ down).balances.turns
  undone _ _ restored := ((balances_endures index).undone _ restored).turns
  applied sys _ _ state _ _ done sound :=
    let applied := (balances_endures index).toBears.applied (fun taken => taken.unheard.balances)
      (teardownAt_balances _) done
      (fun _ => Unheard.balances ⟨⟨[], rfl⟩, rfl, Iff.rfl⟩) sound
    ⟨applied.1, applied.2.turns⟩
  lost loses sound :=
    let lost := loses_balances (teardownAt_balances _) loses sound
    ⟨lost.1, lost.2.turns⟩
  up rises sound :=
    let risen := rises.soundly grows_closes.delivers (grows_lasts code start).quiet ⟨[], rfl⟩
      (grows_lasts code start).advertising sound
    ⟨risen.1, risen.2.trans ⟨[_], rfl⟩, fun _ => rises_balanced rises⟩
  down := by
    rintro other before walked confirmed rises ⟨news, trace, moment, member, failed⟩ sound
    have risen := rises.soundly grows_closes.delivers (grows_lasts code start).quiet ⟨[], rfl⟩
      (grows_lasts code start).advertising sound
    have torn := @teardownAt_balances code index (walked.count + 1) other (walked.fsm other).sessionGeneration
      walked risen.1
    refine ⟨torn.1, risen.2.trans torn.2.1, fun advertised balanced => ?_⟩
    have different : index ≠ other := by
      rintro rfl
      refine advertised moment (torn.2.1.mem ?_) failed
      rw [trace]
      exact List.mem_append_left _ member
    exact torn.2.2 advertised False ((rises.unheard different).balanced balanced)

/-- The events of a session are balanced in every run. -/
theorem Reach.balanced {calls : Sys → Step → Prop} {writes : Ribs → Ribs → Prop} {members : List Member}
    (reached : Reach code calls writes (init members) sys) (advertised : Advertised index sys) :
      Balanced index False sys := by
  have begins : Balanced index False (init members) := by
    have fresh := init_fresh members
    obtain ⟨params, idle⟩ := fresh.fsm index
    refine ⟨?_, ?_, fun _ => not_false⟩
    · rw [fresh.trace]
      rfl
    · rw [fresh.trace, idle]
      simp [sessionEvents, Fsm.init]
  have called : ∀ sys step, sys.Sound → (Advertised index sys → Balanced index False sys) → calls sys step →
      Advertised index (sys.step code step) → Balanced index False (sys.step code step) := by
    intro sys step sound balanced _ advertised
    have turns := (turns_carries code _ _ index).step step sound
      (Balances.turns (Unheard.balances ⟨⟨[], rfl⟩, rfl, Iff.rfl⟩))
    exact turns.2 advertised (balanced (turns.1.advertised advertised))
  have written : ∀ (sys : Sys) ribs, (Advertised index sys → Balanced index False sys) → writes sys.ribs ribs →
      Advertised index { sys with ribs := ribs } → Balanced index False { sys with ribs := ribs } := by
    intro sys ribs balanced _ advertised
    exact Unheard.balanced ⟨⟨[], rfl⟩, rfl, Iff.rfl⟩ (balanced advertised)
  exact (reached.keeps (init_sound members) (fun _ => begins) called written).2 advertised

/-- In every run in which no message of the first advertisement to a session fails, its SESSION_UP and
SESSION_DOWN events take turns, beginning with SESSION_UP. -/
theorem session_events_alternate {writes : Ribs → Ribs → Prop} {members : List Member}
    (reached : Reach code (fun _ _ => True) writes (init members) sys) (advertised : Advertised index sys) :
    alternates (sessionEvents index sys.trace) = true :=
  (reached.balanced advertised).turns

/-- Two sessions, of which the first one comes up and stores a route, and then the steps of the second one. -/
def sampleSecond (steps : List Step) : Sys :=
  (init [.session (sampleParams 65002), .session (sampleParams 65003)]).run libbgpCode (sampleUp 0 65002 0x0a000002 ++
    calmStep 0 (.packet (.update (sampleUpdate [] [65002] [⟨0xc0000200, 24⟩]))) :: steps)

/-- The second session comes up, advertises the stored route and is stopped. -/
theorem session_events_alternate_sample :
    alternates (sessionEvents 1 (sampleSecond (sampleUp 1 65003 0x0a000003 ++ [calmStep 1 .stop])).trace) = true :=
  @session_events_alternate libbgpCode _ 1 (fun _ _ => False) _ (reach_run _ _ fun _ _ _ => trivial) (by decide +kernel)

/-- The second session comes up, and the stored route that it advertises cannot be sent. Its end is announced, its
start never was. -/
theorem session_down_before_up :
    sessionEvents 1 (sampleSecond [calmStep 1 .start, calmStep 1 (.packet (.opening (sampleOpen 65003 0x0a000003))),
      ⟨1, .packet .keepalive, [], [.invalid]⟩]).trace = [false] ∧ alternates [false] = false := by
  decide +kernel

end Sys

end Libbgp
