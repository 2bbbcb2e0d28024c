/-
What every run keeps: the setup of the system and the soundness of its tables.
-/

import Libbgp.Proof.Calls

namespace Libbgp

open Library List

namespace Sys

/-- The tables after an UPDATE that was applied are sound, and no other source lost or gained a route. -/
theorem applied_tables {code : MessageCode} {sys : Sys} {fsm : Fsm} {update : UpdateMsg} {subcode : UInt8}
    {state : Applying} (sound : sys.Sound)
    (done : fsm.applyUpdate code update sys.ribs sys.alloc = (.ok, subcode, state)) :
    (∀ af, (state.ribs.get af).Invariant) ∧
    ∀ af source, source ≠ fsm.peerBgpId → (state.ribs.get af).routeAt source = (sys.ribs.get af).routeAt source := by
  have applied := @Fsm.applyUpdate_applied fsm code update sys.ribs sys.alloc sound
  rw [done] at applied
  cases applied with
  | stopped err subcode journal rest wrong records spent => exact absurd rfl wrong
  | done subcode start after valid starts run =>
    have tracked := (starts.tracked sound).run run (starts.early _) (Fsm.applyItems_inOrder _ _ _)
    refine ⟨tracked.invariant, fun af source different => ?_⟩
    have same := tracked.foreign af source different
    simpa only [Applying.routesFrom, starts.ribs] using same

theorem Opening.ribs {start before after : Sys} (taken : Opening start before after) : after.ribs = before.ribs := by
  cases taken with
  | quiet taken => exact taken.ribs
  | _ => rfl

theorem Quiet.same {before after : Sys} (quiet : Quiet before after) (index : Nat) :
    (before.fsm index).SameSession (after.fsm index) := by
  cases quiet with
  | touched other change same =>
    by_cases here : index = other
    · subst here
      rw [modify_fsm_self]
      exact same
    · rw [modify_fsm_other _ _ _ here]
      exact .refl _
  | _ => exact .refl _

theorem statePreOpen_down {fsm : Fsm} (early : fsm.statePreOpen = true) : fsm.state ≠ .established := by
  intro live
  simp [Fsm.statePreOpen, live] at early

theorem confirmed_state (fsm : Fsm) (msg : OpenMsg) (passive : Bool) :
    (fsm.confirmed msg passive).state = .openConfirm := by
  simp [Fsm.confirmed, Fsm.acceptOpen]

/-- What prepares a session changes only sessions that are not established, and does not establish them. -/
theorem Opening.touches {start before after : Sys} (taken : Opening start before after) (index : Nat) :
    (before.fsm index).SameSession (after.fsm index) ∨
      ((before.fsm index).state ≠ .established ∧ (after.fsm index).state ≠ .established) := by
  have elsewhere : ∀ (other : Nat) (fsm : Fsm), (before.fsm other).state ≠ .established → fsm.state ≠ .established →
      (before.fsm index).SameSession (Function.update before.fsm other fsm index) ∨
        ((before.fsm index).state ≠ .established ∧
          (Function.update before.fsm other fsm index).state ≠ .established) := by
    intro other fsm down still
    by_cases here : index = other
    · subst here
      rw [Function.update_self]
      exact .inr ⟨down, still⟩
    · rw [Function.update_of_ne here]
      exact .inl (.refl _)
  cases taken with
  | quiet taken => exact .inl (taken.same index)
  | entered _ other state early pre =>
    refine elsewhere other _ (statePreOpen_down early) ?_
    rcases pre with rfl | rfl <;> simp
  | opened _ other rest sends moment early spent sent now => exact elsewhere other _ (statePreOpen_down early) (by simp)
  | unopened _ other fsm rest sends moment early spent params state blank failed =>
    exact elsewhere other _ (statePreOpen_down early) (by rw [state]; exact statePreOpen_down early)
  | closed _ other down => exact elsewhere other _ down (by simp)
  | dropped _ other fsm rest sends last news down spent params idle blank ended plain =>
    exact elsewhere other _ down (by simp [idle])
  | confirmed earlier _ other msg passive rest sends keepalive opening prior =>
    refine elsewhere other _ ?_ (by simp [confirmed_state])
    cases passive with
    | true => exact statePreOpen_down prior
    | false =>
      intro live
      cases live.symm.trans prior
  | pending _ other change confirming waiting same =>
    exact elsewhere other _ (by simp [confirming]) (by rw [same]; simp [confirming])

/-- What is seen while a session is prepared. -/
def Preparing (count : Nat) : Obs → Prop
  | .received index _ => index < count
  | .closed _ => True
  | .sent _ (.opening _) => True
  | obs => Plain obs

theorem Plain.preparing {obs : Obs} (plain : Plain obs) (count : Nat) : Preparing count obs := by
  unfold Preparing
  split
  · exact plain.elim
  · trivial
  · trivial
  · exact plain

theorem Quiet.preparing {before after : Sys} (quiet : Quiet before after) :
    ∃ news, after.trace = news ++ before.trace ∧ ∀ moment ∈ news, Preparing before.count moment.obs := by
  cases quiet with
  | seen obs plain => exact ⟨[_], rfl, forall_mem_singleton.mpr (plain.preparing _)⟩
  | heard index packet present => exact ⟨[_], rfl, forall_mem_singleton.mpr present⟩
  | _ => exact ⟨[], rfl, nofun⟩

/-- Opening a session is only seen as preparation. -/
theorem Opening.preparing {start before after : Sys} (taken : Opening start before after) :
    ∃ news, after.trace = news ++ before.trace ∧ ∀ moment ∈ news, Preparing before.count moment.obs := by
  cases taken with
  | quiet taken => exact taken.preparing
  | entered | pending => exact ⟨[], rfl, nofun⟩
  | closed _ index down => exact ⟨[_], rfl, forall_mem_singleton.mpr trivial⟩
  | opened _ index rest sends moment early spent sent now =>
    exact ⟨[_], rfl, forall_mem_singleton.mpr (by rw [sent]; trivial)⟩
  | unopened _ index fsm rest sends moment early spent params state blank failed =>
    exact ⟨[_], rfl, forall_mem_singleton.mpr (by rw [failed]; trivial)⟩
  | dropped _ index fsm rest sends last news down spent params idle blank ended plain =>
    refine ⟨_, rfl, forall_mem_cons.mpr ⟨by rw [ended]; trivial, fun moment member => ?_⟩⟩
    rcases plain moment member with plain | ⟨msg, sent⟩
    · exact plain.preparing _
    · rw [sent]
      trivial
  | confirmed earlier _ index msg passive rest sends keepalive opening prior checked spent begun uncontested heard
      confirming answered =>
      refine ⟨_, rfl, forall_mem_cons.mpr ⟨by rw [confirming]; trivial, ?_⟩⟩
      cases passive with
      | true =>
        obtain ⟨moment, rfl, -, sent⟩ := answered
        exact forall_mem_singleton.mpr (by rw [sent]; trivial)
      | false =>
        rw [show opening = [] from answered]
        intro _ impossible
        cases impossible

theorem Advertising.ribs {index : Nat} {before after : Sys} (taken : Advertising index before after) :
    after.ribs = before.ribs := by
  cases taken with
  | quiet taken => exact taken.ribs
  | _ => rfl

/-- A chain of steps that leave the tables alone. -/
theorem soundly_chain {relation step : Sys → Sys → Prop} {before after : Sys} (delivers : Delivers relation)
    (related : ∀ {before after}, step before after → relation before after)
    (kept : ∀ {before after}, step before after → after.ribs = before.ribs)
    (chain : Relation.ReflTransGen step before after) : Soundly relation before after := by
  induction chain with
  | refl => exact delivers.soundly.refl _
  | tail _ taken ih =>
    exact delivers.soundly.trans ih fun sound => ⟨sound.same (kept taken), related taken⟩

/-- A relation that every action of a call on some session from some state respects, on sound tables. -/
structure Carries (code : MessageCode) (index : Nat) (start : Sys) (relation : Sys → Sys → Prop) : Prop
    extends Delivers relation where
  quiet : ∀ {before after}, Quiet before after → relation before after
  opening : ∀ {before after}, Opening start before after → relation before after
  shut : ∀ (sys : Sys) index, (sys.fsm index).state ≠ .established → relation sys (sys.snapshotTeardown index)
  undone : ∀ {before after}, Still start before → (before.fsm index).state = .established →
    Undone (before.fsm index) before after → relation before after
  applied : ∀ (sys : Sys) update subcode state, Still start sys → (sys.fsm index).state = .established →
    (sys.fsm index).applyUpdate code update sys.ribs sys.alloc = (.ok, subcode, state) →
    Soundly relation sys (sys.publishApplied code index state)
  lost : ∀ {fuel index before after}, Loses code (teardownAt code fuel) index before after →
    Soundly relation before after
  up : ∀ {index before walked confirmed}, Rises index before walked confirmed →
    Soundly relation before (walked.observe (.published 0 (.sessionUp index)))
  down : ∀ {index before walked confirmed}, Rises index before walked confirmed →
    (∃ news, walked.trace = news ++ before.trace ∧ ∃ moment ∈ news, moment.obs = .failed index .advertise) →
    Soundly relation before (walked.fail code index (walked.fsm index).sessionGeneration walked)

section Carries

variable {code : MessageCode} {index : Nat} {start : Sys} {relation : Sys → Sys → Prop} {before after : Sys}
  (carries : Carries code index start relation)

theorem still_soundly (delivers : Delivers relation)
    (quiet : ∀ {before after}, Quiet before after → relation before after) (still : Still before after) :
    Soundly relation before after :=
  soundly_chain delivers quiet Quiet.ribs still

/-- An UPDATE is applied within a relation that respects the new tables and every publication. -/
theorem Bears.applied {sys : Sys} {update : UpdateMsg} {subcode : UInt8} {state : Applying}
    (bears : Bears relation) (quiet : ∀ {before after}, Quiet before after → relation before after)
    (failing : ∀ other generation later, Soundly relation later (sys.fail code other generation later))
    (done : (sys.fsm index).applyUpdate code update sys.ribs sys.alloc = (.ok, subcode, state))
    (stored : sys.Sound → relation sys { sys with ribs := state.ribs, alloc := state.alloc }) :
    Soundly relation sys (sys.publishApplied code index state) := by
  have lifted := bears.soundly
  have tables : Soundly relation sys { sys with ribs := state.ribs, alloc := state.alloc } := fun sound =>
    ⟨(applied_tables sound done).1, stored sound⟩
  have marked := still_soundly bears.delivers quiet (.single (.touched { sys with
    ribs := state.ribs, alloc := state.alloc } index Fsm.markRxCurrent (Fsm.markRxCurrent_same _)))
  have failing : ∀ index generation later, later.Failing index →
      Soundly relation later (sys.fail code index generation later) := fun index generation later _ =>
    failing index generation later
  exact lifted.trans tables (lifted.trans marked (lifted.publishUpdateEvents failing _ _ _ _ _))

include carries

theorem Carries.still (still : Still before after) : Soundly relation before after :=
  still_soundly carries.toDelivers carries.quiet still

theorem Carries.fail (sys : Sys) (index : Nat) (generation : UInt64) (other : Sys) :
    Soundly relation other (sys.fail code index generation other) := by
  rcases @teardownAt_cases code (sys.count + 1) index generation other with same | ⟨less, -, loses⟩
  · rw [Sys.fail, same]
    exact carries.toDelivers.soundly.refl other
  · exact carries.lost loses

theorem Carries.closing {call : Call} (early : Still start before) (taken : Closing code index call before after) :
    Soundly relation before after := by
  cases taken with
  | closed down => exact fun sound => ⟨sound, carries.shut before index down⟩
  | undone live restored => exact fun _ => ⟨restored.sound, carries.undone early live restored⟩
  | applied update subcode state asked live done => exact carries.applied before update subcode state early live done
  | lost loses => exact carries.lost loses

/-- Such a relation holds across every call. -/
theorem Carries.acts {call : Call} (acts : Acts code index call start after) : Soundly relation start after := by
  have lifted := carries.toDelivers.soundly
  cases acts with
  | opens chain => exact soundly_chain carries.toDelivers carries.opening Opening.ribs chain
  | shuts shuts =>
    cases shuts with
    | quiet still => exact carries.still still
    | taken middle last early closing late =>
      exact lifted.trans (carries.still early) (lifted.trans (carries.closing early closing) (carries.still late))
  | up confirmed walked rises rest =>
    have failing : ∀ index generation sys, sys.Failing index →
        Soundly relation sys (walked.fail code index generation sys) := fun index generation sys _ =>
      carries.fail walked index generation sys
    have told := @Delivers.publishRecorded code _ _ lifted failing walked 0 (.sessionUp index)
    exact lifted.trans (carries.up rises) (lifted.trans told (carries.still rest))
  | down confirmed walked rises seen torn =>
    rw [torn]
    exact carries.down rises seen

end Carries

/-- The same for relations that a teardown respects step by step. -/
structure Lasts (code : MessageCode) (start : Sys) (relation : Sys → Sys → Prop) : Prop extends Closes relation where
  quiet : ∀ {before after}, Quiet before after → relation before after
  undone : ∀ {before after} peer, Undone peer before after → relation before after
  applied : ∀ (sys : Sys) index update subcode state, sys.Sound → (sys.fsm index).state = .established →
    (sys.fsm index).applyUpdate code update sys.ribs sys.alloc = (.ok, subcode, state) →
    relation sys { sys with ribs := state.ribs, alloc := state.alloc }
  opening : ∀ {before after}, Opening start before after → relation before after
  establish : ∀ {index before walked confirmed}, Rises index before walked confirmed →
    relation confirmed (confirmed.modify index Fsm.establish)
  advertising : ∀ {index before after}, Advertising index before after → relation before after
  up : ∀ (sys : Sys) index, relation sys (sys.observe (.published 0 (.sessionUp index)))

/-- A session rises within a relation that respects each part of it. -/
theorem Rises.soundly {relation : Sys → Sys → Prop} {index : Nat} {before walked confirmed : Sys}
    (delivers : Delivers relation) (quiet : ∀ {before after}, Quiet before after → relation before after)
    (establish : relation confirmed (confirmed.modify index Fsm.establish))
    (advertising : ∀ {before after}, Advertising index before after → relation before after)
    (rises : Rises index before walked confirmed) : Soundly relation before walked := by
  have risen : Soundly relation confirmed (confirmed.modify index Fsm.establish) := fun sound => ⟨sound, establish⟩
  exact delivers.soundly.trans (still_soundly delivers quiet rises.ready)
    (delivers.soundly.trans risen (soundly_chain delivers advertising Advertising.ribs rises.walked))

/-- A relation that respects what happens around the discard of the routes of a lost session. -/
structure Endures (relation : Sys → Sys → Prop) : Prop extends Discards relation where
  quiet : ∀ {before after}, Quiet before after → relation before after
  undone : ∀ {before after} peer, Undone peer before after → relation before after

/-- The loss of a session: it is closed, its routes are discarded, and its end is announced. -/
theorem Loses.parts {code : MessageCode} {fail : Fail} {relation : Sys → Sys → Prop} {index : Nat} {before after : Sys}
    (delivers : Delivers relation) (quiet : ∀ {before after}, Quiet before after → relation before after)
    (undone : ∀ {before after} peer, Undone peer before after → relation before after)
    (failing : ∀ other generation sys, sys.Failing other → Soundly relation sys (fail other generation sys))
    (discards : ∀ sys peer, Soundly relation sys (discardPeerRoutesPublish code fail sys peer))
    (loses : Loses code fail index before after) :
    (before.fsm index).state = .established ∧ ∃ middle, Soundly relation (before.snapshotTeardown index) middle ∧
      Soundly relation (middle.observe (.published 0 (.sessionDown index))) after := by
  have lifted := delivers.soundly
  have still : ∀ {before after}, Still before after → Soundly relation before after := still_soundly delivers quiet
  obtain ⟨closed, middle, live, shut, discarded, rest⟩ := loses
  have first : Soundly relation (before.snapshotTeardown index) closed := by
    rcases shut with shut | ⟨first, second, early, restored, late⟩
    · exact still shut
    · have back : Soundly relation first second := fun _ => ⟨restored.sound, undone _ restored⟩
      exact lifted.trans (still early) (lifted.trans back (still late))
  have told := @Delivers.publishRecorded code _ _ lifted failing middle 0 (.sessionDown index)
  exact ⟨live, middle, lifted.trans first (lifted.trans (discards closed _) (still discarded)),
    lifted.trans told (still rest)⟩

theorem Endures.parts {code : MessageCode} {fail : Fail} {relation : Sys → Sys → Prop} {index : Nat}
    {before after : Sys}
    (endures : Endures relation) (failing : ∀ other generation sys, Soundly relation sys (fail other generation sys))
    (loses : Loses code fail index before after) :
    (before.fsm index).state = .established ∧ ∃ middle, Soundly relation (before.snapshotTeardown index) middle ∧
      Soundly relation (middle.observe (.published 0 (.sessionDown index))) after := by
  have failing : ∀ index generation sys, sys.Failing index → Soundly relation sys (fail index generation sys) :=
    fun index generation sys _ => failing index generation sys
  exact loses.parts endures.delivers endures.quiet endures.undone failing
    (endures.toDiscards.discardPeerRoutesPublish failing)

section Lasts

variable {code : MessageCode} {relation : Sys → Sys → Prop} {start before after : Sys}
  (lasts : Lasts code start relation)

include lasts

theorem Lasts.loses {fail : Fail} {index : Nat}
    (failing : ∀ other generation sys, Soundly relation sys (fail other generation sys))
    (loses : Loses code fail index before after) : Soundly relation before after := by
  have lifted := lasts.toBears.soundly
  obtain ⟨-, middle, discarded, told⟩ := Endures.parts ⟨lasts.toDiscards, lasts.quiet, lasts.undone⟩ failing loses
  have closing : Soundly relation before (before.snapshotTeardown index) :=
    fun sound => ⟨sound, lasts.close before index⟩
  exact lifted.trans closing (lifted.trans discarded (lifted.trans (.ofObserve (lasts.ended middle index)) told))

/-- A relation that lasts is carried by every call. -/
theorem Lasts.carries {index : Nat} : Carries code index start relation where
  toDelivers := lasts.delivers
  quiet := lasts.quiet
  opening := lasts.opening
  shut sys index _ := lasts.close sys index
  undone _ _ := lasts.undone _
  applied sys update subcode state _ live done := lasts.toBears.applied lasts.quiet (lasts.toCloses.fail sys) done
    fun sound => lasts.applied sys index update subcode state sound live done
  lost := lasts.loses (lasts.toCloses.teardownAt _)
  up rises := lasts.toBears.soundly.trans
    (rises.soundly lasts.delivers lasts.quiet (lasts.establish rises) lasts.advertising)
    (.ofObserve (lasts.up _ _))
  down rises _ := lasts.toBears.soundly.trans
    (rises.soundly lasts.delivers lasts.quiet (lasts.establish rises) lasts.advertising)
    (lasts.toCloses.fail _ _ _ _)

end Lasts

theorem setup_moved {sys : Sys} {index : Nat} {fsm : Fsm} (rest : Allocator) (sends : List Err) (news : List Moment)
    (params : fsm.params = (sys.fsm index).params) : Setup sys (sys.moved index fsm rest sends news) := by
  have changed := setup_modify sys index (fun _ => fsm) params
  exact ⟨changed.count, changed.subs, changed.params⟩

theorem Quiet.setup {before after : Sys} (quiet : Quiet before after) : Setup before after := by
  cases quiet with
  | touched index change same => exact setup_modify _ index change (by rw [same])
  | _ => exact ⟨rfl, rfl, fun _ => rfl⟩

/-- The steps that prepare a session keep the set-up. -/
theorem Opening.setup {start before after : Sys} (taken : Opening start before after) : Setup before after := by
  cases taken with
  | quiet taken => exact taken.setup
  | entered _ index state early pre => exact setup_modify _ index _ (by simp)
  | opened _ index rest sends moment early spent sent now => exact setup_moved rest sends _ (by simp)
  | unopened _ index fsm rest sends moment early spent params state blank failed =>
    exact setup_moved rest sends _ params
  | closed _ index down => exact setup_closes.close _ index
  | dropped _ index fsm rest sends last news down spent params idle blank ended plain =>
    exact setup_moved rest sends _ params
  | confirmed earlier _ index msg passive rest sends keepalive opening =>
    exact setup_moved rest sends _ (by simp [Fsm.confirmed])
  | pending _ index change confirming waiting same => exact setup_modify _ index change (by rw [same])

theorem opens_setup {start before after : Sys} (chain : Opens start before after) : Setup before after := by
  induction chain with
  | refl => exact Setup.refl _
  | tail _ taken ih => exact ih.trans taken.setup

/-- The setup of a system lasts. -/
theorem setup_lasts (code : MessageCode) (start : Sys) : Lasts code start Setup where
  toCloses := setup_closes
  quiet := Quiet.setup
  undone := by
    rintro before _ peer ⟨state, -, -, rfl⟩
    exact ⟨rfl, rfl, fun _ => rfl⟩
  applied _ _ _ _ _ _ _ _ := ⟨rfl, rfl, fun _ => rfl⟩
  opening := Opening.setup
  establish _ := setup_modify _ _ _ (by simp [Fsm.establish])
  advertising := by
    intro index before after taken
    cases taken with
    | quiet taken => exact taken.setup
    | sent => exact ⟨rfl, rfl, fun _ => rfl⟩
  up _ _ := ⟨rfl, rfl, fun _ => rfl⟩

/-- Nothing that was seen is forgotten. -/
def Grows (before after : Sys) : Prop := ∃ news, after.trace = news ++ before.trace

theorem Grows.trans {first second third : Sys} (left : Grows first second) (right : Grows second third) :
    Grows first third := by
  obtain ⟨older, olderTrace⟩ := left
  obtain ⟨newer, newerTrace⟩ := right
  exact ⟨newer ++ older, by rw [newerTrace, olderTrace, append_assoc]⟩

theorem Grows.mem {before after : Sys} (grows : Grows before after) {moment : Moment} (member : moment ∈ before.trace) :
    moment ∈ after.trace := by
  obtain ⟨news, trace⟩ := grows
  rw [trace]
  exact mem_append_right _ member

theorem grows_closes : Closes Grows where
  refl _ := ⟨[], rfl⟩
  trans := Grows.trans
  alloc _ _ _ := ⟨[], rfl⟩
  sends _ _ := ⟨[], rfl⟩
  observe _ _ _ := ⟨[_], rfl⟩
  discard _ _ _ _ _ _ _ _ := ⟨[], rfl⟩
  close _ _ := ⟨[_], rfl⟩
  drain _ _ := ⟨[], rfl⟩
  notified _ _ _ _ := ⟨[_], rfl⟩
  ended _ _ := ⟨[_], rfl⟩

theorem grows_lasts (code : MessageCode) (start : Sys) : Lasts code start Grows where
  toCloses := grows_closes
  quiet := Quiet.news
  undone := by
    rintro before _ peer ⟨state, -, -, rfl⟩
    exact ⟨[], rfl⟩
  applied _ _ _ _ _ _ _ _ := ⟨[], rfl⟩
  opening taken := let ⟨news, trace, _⟩ := taken.preparing; ⟨news, trace⟩
  establish _ := ⟨[], rfl⟩
  advertising := by
    intro index before after taken
    cases taken with
    | quiet taken => exact taken.news
    | sent => exact ⟨[_], rfl⟩
  up _ _ := ⟨[_], rfl⟩

/-- The answers of the environment for one call. -/
def answer (sys : Sys) (step : Step) : Sys := { sys with alloc := step.alloc, sends := step.sends }

section Runs

variable {code : MessageCode} {sys : Sys} (members : List Member)

/-- A step is a call, or there is no such session. -/
theorem step_cases (sound : sys.Sound) (step : Step) :
    (step.session < sys.count ∧ Acts code step.session step.call (sys.answer step) (sys.step code step)) ∨
      sys.step code step = sys := by
  unfold Sys.step
  split
  · rename_i present
    exact .inl ⟨present, @perform_acts code (sys.answer step) step.session sound present step.call⟩
  · exact .inr rfl

theorem step_sound (sound : sys.Sound) (step : Step) : (sys.step code step).Sound := by
  rcases @step_cases code sys sound step with ⟨-, acts⟩ | same
  · exact ((setup_lasts code _).carries.acts acts sound).1
  · rw [same]
    exact sound

/-- A step respects the relation when the answers of its environment do. -/
theorem Carries.step {relation : Sys → Sys → Prop} (step : Step)
    (carries : Carries code step.session (sys.answer step) relation)
    (sound : sys.Sound) (answered : relation sys (sys.answer step)) : relation sys (sys.step code step) := by
  rcases @step_cases code sys sound step with ⟨-, acts⟩ | same
  · exact carries.trans answered (carries.acts acts sound).2
  · rw [same]
    exact carries.refl sys

/-- What a run keeps, when every step from a sound system keeps it. -/
theorem run_keeps {kept : Sys → Prop} (each : ∀ sys step, sys.Sound → kept sys → kept (sys.step code step))
    (steps : List Step) (sound : sys.Sound) (start : kept sys) :
      (sys.run code steps).Sound ∧ kept (sys.run code steps) := by
  unfold run
  induction steps generalizing sys with
  | nil => exact ⟨sound, start⟩
  | cons step rest ih => exact ih (step_sound sound step) (each sys step sound start)

/-- The states of the runs from a system. The calls may be restricted, and between calls the
application may change the tables in some ways. -/
inductive Reach (code : MessageCode) (calls : Sys → Step → Prop) (writes : Ribs → Ribs → Prop) (start : Sys) :
    Sys → Prop
  | start : Reach code calls writes start start
  | call {sys : Sys} (step : Step) (reached : Reach code calls writes start sys) (permitted : calls sys step) :
      Reach code calls writes start (sys.step code step)
  | write {sys : Sys} (ribs : Ribs) (reached : Reach code calls writes start sys) (permitted : writes sys.ribs ribs)
      (sound : ∀ af, (ribs.get af).Invariant) : Reach code calls writes start { sys with ribs := ribs }

/-- What all these states have in common. -/
theorem Reach.keeps {calls : Sys → Step → Prop} {writes : Ribs → Ribs → Prop} {start : Sys} {kept : Sys → Prop}
    (sound : start.Sound) (begins : kept start)
    (called : ∀ sys step, sys.Sound → kept sys → calls sys step → kept (sys.step code step))
    (written : ∀ (sys : Sys) ribs, kept sys → writes sys.ribs ribs → kept { sys with ribs := ribs })
    (reached : Reach code calls writes start sys) : sys.Sound ∧ kept sys := by
  induction reached with
  | start => exact ⟨sound, begins⟩
  | call step _ permitted ih => exact ⟨step_sound ih.1 step, called _ step ih.1 ih.2 permitted⟩
  | write ribs _ permitted tables ih => exact ⟨tables, written _ ribs ih.2 permitted⟩

theorem Reach.sound {calls : Sys → Step → Prop} {writes : Ribs → Ribs → Prop} {start : Sys} (sound : start.Sound)
    (reached : Reach code calls writes start sys) : sys.Sound :=
  (@Reach.keeps code sys calls writes start (fun _ => True) sound trivial (fun _ _ _ _ _ => trivial)
    (fun _ _ _ _ => trivial) reached).1

/-- A list of calls leads to such a state. -/
theorem reach_run {calls : Sys → Step → Prop} {writes : Ribs → Ribs → Prop} (steps : List Step) (start : Sys)
    (permitted : ∀ step ∈ steps, ∀ sys, calls sys step) : Reach code calls writes start (start.run code steps) := by
  unfold run
  induction steps using reverseRecOn with
  | nil => exact .start
  | append_singleton steps step ih =>
    rw [foldl_append]
    have earlier := ih fun other member => permitted other (mem_append_left _ member)
    exact .call step earlier (permitted step (mem_append_right _ mem_cons_self) _)

/-- A list of calls, each of which is permitted in the state that it meets. -/
def Permitted (code : MessageCode) (calls : Sys → Step → Prop) : List Step → Sys → Prop
  | [], _ => True
  | step :: rest, sys => calls sys step ∧ Permitted code calls rest (sys.step code step)

instance decidablePermitted {calls : Sys → Step → Prop} [∀ sys step, Decidable (calls sys step)] :
    (steps : List Step) → (sys : Sys) → Decidable (Permitted code calls steps sys)
  | [], _ => isTrue trivial
  | step :: rest, sys => @instDecidableAnd _ _ _ (decidablePermitted rest (sys.step code step))

theorem reach_permitted {calls checked : Sys → Step → Prop} {writes : Ribs → Ribs → Prop} {start : Sys}
    (implies : ∀ sys step, checked sys step → calls sys step) {steps : List Step}
    (reached : Reach code calls writes start sys) (permitted : Permitted code checked steps sys) :
    Reach code calls writes start (sys.run code steps) := by
  induction steps generalizing sys with
  | nil => exact reached
  | cons step rest ih => exact ih (.call step reached (implies sys step permitted.1)) permitted.2

/-- A system before its first call. -/
structure Fresh (sys : Sys) : Prop where
  ribs : sys.ribs = .init
  trace : sys.trace = []
  fsm : ∀ index, ∃ params, sys.fsm index = .init params

/-- A new system is fresh. -/
theorem init_fresh : (init members).Fresh := by
  have joined : ∀ (members : List Member) (sys : Sys), sys.Fresh → (members.foldl attach sys).Fresh := by
    intro members
    induction members with
    | nil => exact fun _ fresh => fresh
    | cons member rest ih =>
      intro sys fresh
      refine ih _ ?_
      cases member with
      | session params =>
        refine ⟨fresh.ribs, fresh.trace, fun index => ?_⟩
        by_cases here : index = sys.count
        · exact ⟨_, by simp only [attach, here, Function.update_self]; rfl⟩
        · simpa only [attach, Function.update_of_ne here] using fresh.fsm index
      | observer number type => exact ⟨fresh.ribs, fresh.trace, fresh.fsm⟩
  exact joined members empty ⟨rfl, rfl, fun _ => ⟨.unused, rfl⟩⟩

theorem init_sound : (init members).Sound := by
  intro af
  rw [(init_fresh members).ribs]
  cases af <;> exact RibImpl.init_invariant

theorem init_routeAt (af : Af) (source : RouterId) (pfx : Prefix af.family.width) :
    ((init members).ribs.get af).routeAt source pfx = none := by
  have sound := init_sound members af
  have empty : (Ribs.init.get af).linked = ∅ := by cases af <;> exact RibImpl.init_linked
  rw [RibImpl.routeAt_eq_none_iff, sound.find_eq_none_iff, (init_fresh members).ribs, empty]
  exact fun _ impossible => absurd impossible (Set.notMem_empty _)

theorem run_sound (steps : List Step) (sound : sys.Sound) : (sys.run code steps).Sound :=
  (@run_keeps code sys (fun _ => True) (fun _ _ _ _ => trivial) steps sound trivial).1

end Runs

end Sys

section Samples

/-- A session of AS 65001 with one neighbour, for the examples of the modules that follow. -/
def sampleParams (peerAsn : UInt32) : FsmParams :=
  { FsmParams.unused with
    config := ⟨65001, 0x0a000001, 90, 30, true, true⟩
    expectedPeerAsn := peerAsn
    enableMpbgpIpv4 := true
    hasOut := true
    defaultNexthop4 := 0x0a000001
    noNexthopCheck := fun _ => true }

def sampleOpen (asn : UInt32) (bgpId : RouterId) : OpenMsg :=
  ⟨4, asn.toUInt16, 90, bgpId, [some (.asn4b asn), some (.mpBgp 1 1), some (.mpBgp 2 1)]⟩

/-- A call during which nothing fails. -/
def calmStep (session : Nat) (call : Call) : Step := ⟨session, call, [], []⟩

/-- The calls that bring a session up. -/
def sampleUp (session : Nat) (asn : UInt32) (bgpId : RouterId) : List Step :=
  [calmStep session .start, calmStep session (.packet (.opening (sampleOpen asn bgpId))),
    calmStep session (.packet .keepalive)]

def sampleUpdate (withdrawn : List (Prefix 32)) (path : List UInt32) (nlri : List (Prefix 32)) : UpdateMsg :=
  ⟨withdrawn, [some ⟨0x40, .origin 0⟩, some ⟨0x40, .asPath [⟨2, path⟩] true⟩, some ⟨0x40, .nextHop 0x0a000009⟩], nlri⟩

end Samples

end Libbgp
