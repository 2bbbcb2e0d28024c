/-
What the state-change callback of a session is told: the queue of transitions and its deliveries.
-/

import Libbgp.Proof.Runs

namespace Libbgp

open Library

/-- The pairs lead from one state to another: each begins where the one before it ended. -/
abbrev Linked (start : FsmState) (changes : List (FsmState × FsmState)) (last : FsmState) : Prop :=
  Steps (fun change before after => change = (before, after)) changes start last

theorem modify_concat {A : Type} (front : List A) (last : A) (change : A → A) :
    (front ++ [last]).modify front.length change = front ++ [change last] := by
  induction front with
  | nil => rfl
  | cons head tail ih => exact congrArg (head :: ·) ih

/-- The last pair may end somewhere else. -/
theorem Linked.redirect {start last : FsmState} {changes : List (FsmState × FsmState)} {change : FsmState × FsmState}
    (linked : Linked start (changes ++ [change]) last) (next : FsmState) :
    Linked start (changes ++ [(change.1, next)]) next := by
  obtain ⟨middle, front, back⟩ := Steps.append_iff.mp linked
  cases back with
  | next head tail =>
    cases head
    exact front.append (.next rfl (.done next))

/-- The callback was told what is no longer queued, and the queue leads to the current state. -/
structure Fsm.Reporting (told : List (FsmState × FsmState)) (fsm : Fsm) : Prop where
  callback : fsm.params.hasStateChangeCb = true
  room : fsm.stateChanges.length ≤ Fsm.stateChangeQueueCap
  linked : Linked .idle (told ++ fsm.stateChanges) fsm.state

namespace Fsm

variable {told : List (FsmState × FsmState)} {fsm : Fsm}

/-- A transition keeps the queue in step with the state, also when the queue is full. -/
theorem Reporting.setState (reporting : Reporting told fsm) (state : FsmState) :
    Reporting told (fsm.setState state) := by
  obtain ⟨callback, room, linked⟩ := reporting
  unfold Fsm.setState
  split
  · exact ⟨callback, room, linked⟩
  rw [if_neg (by simp [callback])]
  split
  · -- The queue is full: its last place is written again.
    rename_i full
    have whole : fsm.stateChanges.length = stateChangeQueueCap := Nat.le_antisymm room full
    obtain ⟨front, last, split⟩ : ∃ front last, fsm.stateChanges = front ++ [last] := by
      rcases List.eq_nil_or_concat fsm.stateChanges with empty | ⟨front, last, split⟩
      · rw [empty] at whole
        cases whole
      · exact ⟨front, last, by simpa using split⟩
    have length : front.length = stateChangeQueueCap - 1 := by
      have sum := congrArg List.length split
      rw [List.length_append, List.length_singleton] at sum
      omega
    have written : (fsm.stateChanges.modify (stateChangeQueueCap - 1) fun change => (change.1, state)) =
        front ++ [(last.1, state)] := by
      rw [split, ← length, modify_concat]
    refine ⟨callback, ?_, ?_⟩
    · simpa using room
    · change Linked .idle (told ++ fsm.stateChanges.modify (stateChangeQueueCap - 1) _) state
      rw [written, ← List.append_assoc]
      rw [split, ← List.append_assoc] at linked
      exact linked.redirect state
  · rename_i free
    refine ⟨callback, ?_, ?_⟩
    · simp only [List.length_append, List.length_singleton]
      omega
    · rw [← List.append_assoc]
      exact linked.append (.next rfl (.done state))

theorem Reporting.teardown (reporting : Reporting told fsm) : Reporting told fsm.snapshotTeardown := by
  have idle := reporting.setState .idle
  exact ⟨idle.callback, idle.room, idle.linked⟩

/-- Neither the state nor the queue changed. -/
structure SameQueue (before after : Fsm) : Prop where
  params : after.params = before.params
  state : after.state = before.state
  queue : after.stateChanges = before.stateChanges

theorem markRxCurrent_queue (fsm : Fsm) : SameQueue fsm fsm.markRxCurrent := by
  unfold markRxCurrent
  split
  · exact ⟨rfl, rfl, rfl⟩
  · exact ⟨rfl, rfl, rfl⟩

theorem Reporting.same {after : Fsm} (reporting : Reporting told fsm) (same : SameQueue fsm after) :
    Reporting told after := by
  refine ⟨?_, ?_, ?_⟩
  · rw [same.params]
    exact reporting.callback
  · rw [same.queue]
    exact reporting.room
  · rw [same.queue, same.state]
    exact reporting.linked

theorem Reporting.acceptOpen (reporting : Reporting told fsm) (msg : OpenMsg) (passive : Bool) :
    Reporting told (fsm.acceptOpen msg passive) := by
  have moved : ∀ other, SameQueue fsm other → Reporting told (other.setState .openConfirm) := fun other same =>
    (reporting.same same).setState .openConfirm
  unfold Fsm.acceptOpen
  refine (moved _ ?_).same ⟨rfl, rfl, rfl⟩
  exact ⟨rfl, rfl, rfl⟩

/-- What was queued has been told. -/
theorem Reporting.flushed (reporting : Reporting told fsm) :
    Reporting (told ++ fsm.stateChanges) { fsm with stateChanges := [] } :=
  ⟨reporting.callback, Nat.zero_le _, by simpa using reporting.linked⟩

end Fsm

/-- What a moment tells the callback of a session. -/
def Obs.change (index : Nat) : Obs → Option (FsmState × FsmState)
  | .notified session before after => if session = index then some (before, after) else none
  | _ => none

/-- What the callback of a session was told so far, in order. -/
def reported (index : Nat) (trace : List Moment) : List (FsmState × FsmState) :=
  (trace.filterMap fun moment => moment.obs.change index).reverse

namespace Sys

variable {index : Nat} {first second third before after : Sys}

section Reported

variable (sys : Sys) (index : Nat) {other : Nat}

theorem reported_silent {obs : Obs} (silent : obs.change index = none) :
    reported index (sys.observe obs).trace = reported index sys.trace := by
  simp [reported, silent]

theorem reported_notified (before after : FsmState) :
    reported index (sys.observe (.notified index before after)).trace =
      reported index sys.trace ++ [(before, after)] := by
  simp [reported, Obs.change]

theorem drain_fsm_self : (sys.drain index).2.fsm index = { sys.fsm index with stateChanges := [] } :=
  modify_fsm_self sys index fun fsm => { fsm with stateChanges := [] }

theorem drain_fsm_other (different : other ≠ index) : (sys.drain index).2.fsm other = sys.fsm other :=
  modify_fsm_other sys index (fun fsm => { fsm with stateChanges := [] }) different

theorem Sound.dispatch {sys : Sys} (sound : sys.Sound) (index : Nat) (changes : List (FsmState × FsmState)) :
    (sys.dispatch index changes).Sound := by
  intro af
  rw [dispatch_ribs]
  exact sound af

theorem reported_dispatch (changes : List (FsmState × FsmState)) :
    reported index (sys.dispatch index changes).trace = reported index sys.trace ++ changes := by
  unfold dispatch
  induction changes generalizing sys with
  | nil => simp
  | cons change rest ih =>
    have more := ih (sys.observe (.notified index change.1 change.2))
    rw [reported_notified] at more
    rw [List.foldl_cons, more, List.append_assoc, List.singleton_append]

theorem reported_dispatch_other (different : other ≠ index) (changes : List (FsmState × FsmState)) :
    reported other (sys.dispatch index changes).trace = reported other sys.trace := by
  unfold dispatch
  induction changes generalizing sys with
  | nil => rfl
  | cons change rest ih =>
    rw [List.foldl_cons, ih, reported_silent]
    simp [Obs.change, different.symm]

end Reported

/-- A session and what its callback was told are as before. -/
def Unmoved (index : Nat) (before after : Sys) : Prop :=
  after.fsm index = before.fsm index ∧ reported index after.trace = reported index before.trace

theorem Unmoved.trans (left : Unmoved index first second) (right : Unmoved index second third) :
    Unmoved index first third :=
  ⟨right.1.trans left.1, right.2.trans left.2⟩

/-- The session was torn down, and its callback was told of everything. -/
structure Torn (index : Nat) (before after : Sys) : Prop where
  live : (before.fsm index).state = .openConfirm ∨ (before.fsm index).state = .established
  fsm : after.fsm index = { (before.fsm index).snapshotTeardown with stateChanges := [] }
  told : reported index after.trace = reported index before.trace ++ (before.fsm index).snapshotTeardown.stateChanges

theorem Torn.idle (torn : Torn index before after) : (after.fsm index).state = .idle := by
  rw [torn.fsm]
  exact Fsm.snapshotTeardown_state _

/-- What events can do to a session. -/
def Disturbs (index : Nat) (before after : Sys) : Prop := Unmoved index before after ∨ Torn index before after

theorem Disturbs.trans (left : Disturbs index first second) (right : Disturbs index second third) :
    Disturbs index first third := by
  rcases left with same | torn
  · rcases right with again | torn
    · exact .inl (same.trans again)
    · obtain ⟨live, fsm, told⟩ := torn
      rw [same.1] at live fsm told
      rw [same.2] at told
      exact .inr ⟨live, fsm, told⟩
  · rcases right with same | again
    · exact .inr ⟨torn.live, same.1.trans torn.fsm, same.2.trans torn.told⟩
    · have idle := torn.idle
      rcases again.live with live | live <;> rw [live] at idle <;> cases idle

/-- What events can do to the sessions. -/
def Meanwhile (before after : Sys) : Prop := ∀ index, Disturbs index before after

/-- Nothing that concerns a session happened. -/
def Untouched (before after : Sys) : Prop := ∀ index, Unmoved index before after

theorem Untouched.meanwhile (untouched : Untouched before after) : Meanwhile before after :=
  fun index => .inl (untouched index)

theorem untouched_observe (sys : Sys) {obs : Obs} (silent : ∀ index, obs.change index = none) :
    Untouched sys (sys.observe obs) :=
  fun index => ⟨rfl, reported_silent sys index (silent index)⟩

theorem untouched_tables (sys : Sys) (ribs : Ribs) (alloc : Allocator) :
    Untouched sys { sys with ribs := ribs, alloc := alloc } :=
  fun _ => ⟨rfl, rfl⟩

theorem untouched_delivers : Delivers Untouched where
  refl _ _ := ⟨rfl, rfl⟩
  trans left right index := (left index).trans (right index)
  alloc _ _ _ _ := ⟨rfl, rfl⟩
  sends _ _ _ := ⟨rfl, rfl⟩
  observe sys obs delivery := untouched_observe sys fun index => by
    unfold Delivery at delivery
    split at delivery
    · rfl
    · rfl
    · rfl
    · rfl
    · exact delivery.elim

/-- Routes that are passed on do what events can do. -/
theorem meanwhile_discards : Discards Meanwhile where
  refl sys := (untouched_delivers.refl sys).meanwhile
  trans left right index := (left index).trans (right index)
  alloc sys rest spent := (untouched_delivers.alloc sys rest spent).meanwhile
  sends sys rest := (untouched_delivers.sends sys rest).meanwhile
  observe sys obs routine := Untouched.meanwhile (untouched_observe sys fun index => by
    unfold Routine at routine
    split at routine
    · rfl
    · rfl
    · rfl
    · rfl
    · rfl
    · rfl
    · exact routine.elim)
  discard _ _ _ _ _ _ _ _ := fun _ => .inl ⟨rfl, rfl⟩

/-- A session that is not up is not concerned. -/
theorem Meanwhile.unmoved (events : Meanwhile before after) (down : (before.fsm index).state = .idle) :
    Unmoved index before after := by
  rcases events index with same | torn
  · exact same
  · rcases torn.live with live | live <;> rw [live] at down <;> cases down

/-- The callback and the queue of a session are in step with its state. -/
def Reports (index : Nat) (sys : Sys) : Prop := (sys.fsm index).Reporting (reported index sys.trace)

def Keeps (index : Nat) (before after : Sys) : Prop := before.Reports index → after.Reports index

/-- A call changes its own session only, and keeps the queue in step. -/
structure Moves (index : Nat) (before after : Sys) : Prop where
  others : ∀ other, other ≠ index → Unmoved other before after
  keeps : Keeps index before after

/-- The queue is taken, then events happen, and then the callback is told. -/
structure HandsOver (index : Nat) (before after : Sys) : Prop where
  parts : ∃ later middle, Moves index before later ∧ Meanwhile (later.drain index).2 middle ∧
    Unmoved index (later.drain index).2 middle ∧ after = middle.dispatch index (later.drain index).1

/-- What a call on a session does to all of them. -/
structure Does (index : Nat) (before after : Sys) : Prop where
  others : ∀ other, other ≠ index → Disturbs other before after
  keeps : Keeps index before after

/-- The same for a call that leaves nothing queued which was not queued before. -/
structure Tends (index : Nat) (before after : Sys) : Prop where
  does : Does index before after
  rests : before.Reports index → (before.fsm index).stateChanges = [] → (after.fsm index).stateChanges = []

section Handover

variable {index : Nat} {first before after last : Sys} {sys middle : Sys}

theorem Unmoved.keeps (same : Unmoved index before after) : Keeps index before after := by
  intro reports
  unfold Reports
  rw [same.1, same.2]
  exact reports

theorem Torn.keeps (torn : Torn index before after) : Keeps index before after := by
  intro reports
  unfold Reports
  rw [torn.fsm, torn.told]
  exact (Fsm.Reporting.teardown reports).flushed

theorem Disturbs.keeps (disturbs : Disturbs index before after) : Keeps index before after :=
  disturbs.elim Unmoved.keeps Torn.keeps

theorem Disturbs.rests (disturbs : Disturbs index before after) (empty : (before.fsm index).stateChanges = []) :
    (after.fsm index).stateChanges = [] := by
  rcases disturbs with same | torn
  · rw [same.1]
    exact empty
  · rw [torn.fsm]

theorem Meanwhile.does (events : Meanwhile before after) (index : Nat) : Does index before after :=
  ⟨fun other _ => events other, (events index).keeps⟩

theorem Untouched.moves (untouched : Untouched before after) (index : Nat) : Moves index before after :=
  ⟨fun other _ => untouched other, (untouched index).keeps⟩

theorem Moves.does (moves : Moves index before after) : Does index before after :=
  ⟨fun other different => .inl (moves.others other different), moves.keeps⟩

theorem Moves.trans (left : Moves index first before) (right : Moves index before after) : Moves index first after :=
  ⟨fun other different => (left.others other different).trans (right.others other different), right.keeps ∘ left.keeps⟩

theorem Does.trans (left : Does index first before) (right : Does index before after) : Does index first after :=
  ⟨fun other different => (left.others other different).trans (right.others other different), right.keeps ∘ left.keeps⟩

theorem Tends.trans (left : Tends index first before) (right : Tends index before after) : Tends index first after :=
  ⟨left.does.trans right.does, fun reports empty => right.rests (left.does.keeps reports) (left.rests reports empty)⟩

theorem Meanwhile.tends (events : Meanwhile before after) (index : Nat) : Tends index before after :=
  ⟨events.does index, fun _ empty => (events index).rests empty⟩

theorem moves_modify (sys : Sys) (index : Nat) (change : Fsm → Fsm)
    (follows : ∀ told, (sys.fsm index).Reporting told → (change (sys.fsm index)).Reporting told) :
    Moves index sys (sys.modify index change) := by
  refine ⟨fun other different => ⟨modify_fsm_other _ _ _ different, rfl⟩, fun reports => ?_⟩
  unfold Reports
  rw [modify_fsm_self]
  exact follows _ reports

/-- Other fields of the session change. -/
theorem tends_modify (sys : Sys) (index : Nat) (change : Fsm → Fsm)
    (same : (sys.fsm index).SameQueue (change (sys.fsm index))) : Tends index sys (sys.modify index change) := by
  refine ⟨(moves_modify sys index change fun told reporting => reporting.same same).does, fun _ empty => ?_⟩
  rw [modify_fsm_self, same.queue]
  exact empty

theorem moves_close (sys : Sys) (index : Nat) : Moves index sys (sys.snapshotTeardown index) :=
  (moves_modify sys index _ fun _ => Fsm.Reporting.teardown).trans ((untouched_observe _ fun _ => rfl).moves index)

theorem HandsOver.from (moves : Moves index first before) (hands : HandsOver index before after) :
    HandsOver index first after := by
  obtain ⟨later, middle, moved, rest⟩ := hands.parts
  exact ⟨later, middle, moves.trans moved, rest⟩

/-- After a handover nothing is queued, and the callback knows the state. -/
theorem HandsOver.settles (hands : HandsOver index before after) (reports : before.Reports index) :
    after.Reports index ∧ (after.fsm index).stateChanges = [] := by
  obtain ⟨later, middle, moves, -, same, rfl⟩ := hands.parts
  have queued := moves.keeps reports
  have fsm : (middle.dispatch index (later.drain index).1).fsm index = { later.fsm index with stateChanges := [] } := by
    rw [dispatch_fsm, same.1, drain_fsm_self]
  refine ⟨?_, by rw [fsm]⟩
  unfold Reports
  rw [fsm, reported_dispatch, same.2]
  exact Fsm.Reporting.flushed queued

theorem HandsOver.does (hands : HandsOver index before after) : Does index before after := by
  refine ⟨fun other different => ?_, fun reports => (hands.settles reports).1⟩
  obtain ⟨later, middle, moves, events, -, rfl⟩ := hands.parts
  have drained : Unmoved other before (later.drain index).2 :=
    (moves.others other different).trans ⟨drain_fsm_other later index different, rfl⟩
  have told : Unmoved other middle (middle.dispatch index (later.drain index).1) :=
    ⟨by rw [dispatch_fsm], reported_dispatch_other middle index different _⟩
  exact (Disturbs.trans (.inl drained) (events other)).trans (.inl told)

/-- A session that is closed hands its queue over after the events that follow. -/
theorem closing_hands {index : Nat} (events : Meanwhile ((sys.snapshotTeardown index).drain index).2 middle) :
    HandsOver index sys (middle.dispatch index ((sys.snapshotTeardown index).drain index).1) := by
  refine ⟨sys.snapshotTeardown index, middle, moves_close sys index, events, events.unmoved ?_, rfl⟩
  rw [drain_fsm_self]
  change ((sys.modify index Fsm.snapshotTeardown).fsm index).state = .idle
  rw [modify_fsm_self]
  exact Fsm.snapshotTeardown_state _

theorem closing_soundly {index : Nat} (events : Soundly Meanwhile ((sys.snapshotTeardown index).drain index).2 middle) :
    Soundly (HandsOver index) sys (middle.dispatch index ((sys.snapshotTeardown index).drain index).1) :=
  fun sound => ⟨(events sound).1.dispatch _ _, closing_hands (events sound).2⟩

/-- For the other sessions, and for the one that was up, that is an event like others. -/
theorem closing_meanwhile {index : Nat}
    (live : (sys.fsm index).state = .openConfirm ∨ (sys.fsm index).state = .established)
    (events : Meanwhile ((sys.snapshotTeardown index).drain index).2 middle) :
    Meanwhile sys (middle.dispatch index ((sys.snapshotTeardown index).drain index).1) := by
  intro other
  by_cases same : other = index
  · subst same
    have closed : (sys.snapshotTeardown other).fsm other = (sys.fsm other).snapshotTeardown := modify_fsm_self ..
    have idle : (((sys.snapshotTeardown other).drain other).2.fsm other).state = .idle := by
      rw [drain_fsm_self, closed]
      exact Fsm.snapshotTeardown_state _
    have unmoved := events.unmoved idle
    refine .inr ⟨live, ?_, ?_⟩
    · rw [dispatch_fsm, unmoved.1, drain_fsm_self, closed]
    · rw [reported_dispatch, unmoved.2]
      change reported other (sys.snapshotTeardown other).trace ++
        ((sys.snapshotTeardown other).fsm other).stateChanges = _
      rw [closed]
      congr 1
  · exact (closing_hands events).does.others other same

end Handover

section Events

variable {code : MessageCode} {sys later : Sys}

theorem send_untouched (sys : Sys) (index : Nat) (message : Message) (cause : Cause) :
    Soundly Untouched sys (sys.send index message cause).2 := by
  rcases sys.send_cases index cause message with ⟨rest, sent⟩ | ⟨err, rest, -, failed⟩
  · rw [sent]
    exact fun sound => ⟨sound, untouched_observe { sys with sends := rest } fun _ => rfl⟩
  · rw [failed]
    exact fun sound => ⟨sound, untouched_observe { sys with sends := rest } fun _ => rfl⟩

theorem sendOpen_untouched (sys : Sys) (index : Nat) : Soundly Untouched sys (sys.sendOpen index).2 := by
  unfold sendOpen
  dsimp only
  split
  · exact fun sound => ⟨sound, untouched_observe sys fun _ => rfl⟩
  split
  · rename_i alloc _
    exact send_untouched { sys with alloc := alloc } index _ _
  · rename_i alloc _
    exact fun sound => ⟨sound, untouched_observe { sys with alloc := alloc } fun _ => rfl⟩

/-- The routes of a session that ended are withdrawn, and its end is announced. -/
theorem ended_meanwhile {fail : Fail} (failing : ∀ other generation later, later.Failing other →
    Soundly Meanwhile later (fail other generation later)) (sys : Sys) (peer : RouterId) (index : Nat) :
    Soundly Meanwhile sys
      ((sys.discardPeerRoutesPublish code fail peer).publishEvent code fail 0 (.sessionDown index)) := by
  have lifted := meanwhile_discards.toBears.soundly
  have recorded : ∀ later : Sys, Meanwhile later (later.observe (.published 0 (.sessionDown index))) := fun later =>
    (untouched_observe later fun _ => rfl).meanwhile
  exact lifted.trans (meanwhile_discards.discardPeerRoutesPublish failing sys peer)
    (lifted.delivers.publishEvent failing _ _ _ (.ofObserve (recorded _)))

/-- The teardown of a session, with everything that follows from it. -/
theorem teardownAt_meanwhile (fuel index : Nat) (generation : UInt64) (sys : Sys) :
    Soundly Meanwhile sys (Sys.teardownAt code fuel index generation sys) := by
  induction fuel generalizing index generation sys with
  | zero => exact meanwhile_discards.toBears.soundly.refl sys
  | succ fuel ih =>
    simp only [Sys.teardownAt, teardownCurrentEstablished]
    split
    · rename_i current
      intro sound
      obtain ⟨safe, events⟩ := ended_meanwhile (fun other generation later _ => @ih other generation later)
        ((sys.snapshotTeardown index).drain index).2 (sys.fsm index).peerBgpId index sound
      have live : (sys.fsm index).state = .established := by
        simp only [Fsm.sessionCurrent, Bool.and_eq_true, beq_iff_eq] at current
        exact current.1
      exact ⟨safe.dispatch _ _, closing_meanwhile (.inr live) events⟩
    · exact meanwhile_discards.toBears.soundly.refl sys

theorem fail_meanwhile (sys : Sys) (other : Nat) (generation : UInt64) (later : Sys) (_ : later.Failing other) :
    Soundly Meanwhile later (sys.fail code other generation later) :=
  teardownAt_meanwhile _ other generation later

theorem loseRoutes_meanwhile (sys : Sys) (index : Nat) (established : Bool) (peer : RouterId) :
    Soundly Meanwhile sys (sys.loseRoutes code index established peer) := by
  unfold loseRoutes
  split
  · exact ended_meanwhile (fail_meanwhile sys) sys peer index
  · exact meanwhile_discards.toBears.soundly.refl sys

/-- The current session is torn down, and its callback is told. -/
theorem fail_hands {sys later : Sys} {index : Nat} (live : (later.fsm index).state = .established) :
    Soundly (HandsOver index) later (sys.fail code index (later.fsm index).sessionGeneration later) := by
  have current : (later.fsm index).sessionCurrent (later.fsm index).sessionGeneration = true := by
    simp [Fsm.sessionCurrent, live]
  simp only [Sys.fail, Sys.teardownAt, teardownCurrentEstablished, if_pos current]
  exact closing_soundly (ended_meanwhile
    (fun other generation later _ => teardownAt_meanwhile _ other generation later) _ _ _)

/-- An attempt that gives way is closed, and its callback is told. -/
theorem collisionCb_meanwhile (sys : Sys) (index : Nat) (source : RouterId) :
    Soundly Meanwhile sys (sys.collisionCb index source).2 := by
  unfold collisionCb
  dsimp only
  split
  · rename_i contested
    split
    · intro sound
      have told := send_untouched ((sys.snapshotTeardown index).drain index).2 index (.notification 6 7) .control sound
      have live : (sys.fsm index).state = .openConfirm := by
        simp only [Bool.and_eq_true, beq_iff_eq] at contested
        exact contested.1.2
      exact ⟨told.1.dispatch _ _, closing_meanwhile (.inl live) told.2.meanwhile⟩
    · exact meanwhile_discards.toBears.soundly.refl sys
  · exact meanwhile_discards.toBears.soundly.refl sys

/-- A collision does what events can do. -/
theorem publishCollision_meanwhile (sys : Sys) (publisher : Nat) (source : RouterId) :
    Soundly Meanwhile sys (sys.publishCollision publisher source).2 := by
  have lifted := meanwhile_discards.toBears.soundly
  have recorded : Soundly Meanwhile sys (sys.observe (.published publisher (.collision source))) :=
    .ofObserve (untouched_observe sys fun _ => rfl).meanwhile
  have each : ∀ (state : Bool × Sys) (sub : Subscriber),
      Soundly Meanwhile state.2 (deliverCollision source state sub).2 := by
    intro state sub
    unfold deliverCollision
    split
    · exact collisionCb_meanwhile state.2 _ source
    · exact .ofObserve (untouched_observe state.2 fun _ => rfl).meanwhile
  exact publishCollision_relates lifted.refl lifted.trans lifted.alloc each sys publisher recorded

theorem sendBuilt_untouched (sys : Sys) (index : Nat) (cause : Cause) (message : UpdateMsg → Message)
    {built : Except Err UpdateMsg × Allocator} {alloc : Allocator} (sendable : Sendable alloc built) :
    Soundly Untouched sys (sys.sendBuilt code index cause message built).2 := by
  rcases sys.sendBuilt_cases code index cause message built sendable with
    ⟨wire, rest, -, sent⟩ | ⟨err, rest, -, failed⟩
  · rw [sent]
    exact fun sound => ⟨sound, untouched_observe { sys with alloc := built.2, sends := rest } fun _ => rfl⟩
  · rw [failed]
    exact fun sound => ⟨sound, untouched_observe { sys with alloc := built.2, sends := rest } fun _ => rfl⟩

/-- The walk over the stored routes only sends. -/
theorem advertiseRoutes_untouched (index : Nat) (af : Af) (routes : List (Route af.family.width)) (sys : Sys) :
    Soundly Untouched sys (advertiseRoutes code index af routes sys).2 := by
  have lifted := untouched_delivers.soundly
  induction routes generalizing sys with
  | nil => exact lifted.refl sys
  | cons route rest ih =>
    unfold advertiseRoutes
    split
    · split
      · rename_i update alloc _
        have sent := @sendBuilt_untouched code sys index .advertise (.announce af route.sourceRouterId route.pfx update)
          _ alloc (@prepareUpdate_sendable (sys.fsm index) code update alloc)
        split
        · rename_i after done
          rw [done] at sent
          exact lifted.trans sent (ih after)
        · exact sent
      · rename_i alloc _ _
        exact fun sound => ⟨sound, untouched_observe { sys with alloc := alloc } fun _ => rfl⟩
    · exact ih sys

theorem advertiseExisting_untouched (sys : Sys) (index : Nat) (af : Af) :
    Soundly Untouched sys (sys.advertiseExisting code index af).2 := by
  have lifted := untouched_delivers.soundly
  unfold advertiseExisting
  split
  · generalize (sys.ribs.get af).foreachBestRoute sys.alloc = snapshot
    obtain ⟨err, entries, alloc⟩ := snapshot
    have walked : Soundly Untouched sys
        (advertiseRoutes code index af (entries.map RouteEntry.route) { sys with alloc := alloc }).2 := fun sound =>
      @advertiseRoutes_untouched code index af (entries.map RouteEntry.route) { sys with alloc := alloc } sound
    dsimp only
    split
    · exact walked
    · exact lifted.trans walked (.ofObserve (untouched_observe _ fun _ => rfl))
  · exact lifted.refl sys

/-- No session reacts to the announcement that one is up. -/
theorem sessionUp_untouched (fail : Fail) (sys : Sys) (index : Nat) :
    Soundly Untouched sys (sys.publishEvent code fail 0 (.sessionUp index)) := by
  have same : sys.publishEvent code fail 0 (.sessionUp index) =
      sys.publishEvent code (fun _ _ later => later) 0 (.sessionUp index) := rfl
  rw [same]
  exact untouched_delivers.soundly.publishEvent (fun _ _ later _ => untouched_delivers.soundly.refl later) sys 0 _
    (.ofObserve (untouched_observe sys fun _ => rfl))

theorem announced_hands (index : Nat) (fail : Fail) (walked : Soundly Untouched sys later) :
    Soundly (HandsOver index) sys
      (((later.drain index).2.publishEvent code fail 0 (.sessionUp index)).dispatch index (later.drain index).1) := by
  intro sound
  obtain ⟨safe, quiet⟩ := walked sound
  obtain ⟨announced, same⟩ := @sessionUp_untouched code fail (later.drain index).2 index safe
  exact ⟨announced.dispatch _ _, later, _, quiet.moves index, same.meanwhile, same index, rfl⟩

theorem torn_hands {index : Nat} (walked : Soundly Untouched sys later)
    (live : (sys.fsm index).state = .established) :
    Soundly (HandsOver index) sys (later.fail code index (sys.fsm index).sessionGeneration later) := by
  intro sound
  obtain ⟨safe, quiet⟩ := walked sound
  have same := (quiet index).1
  rw [← same] at live ⊢
  obtain ⟨torn, hands⟩ := @fail_hands code later later index live safe
  exact ⟨torn, hands.from (quiet.moves index)⟩

/-- A session comes up: it is announced, or the session is torn down again. Either way the callback is told. -/
theorem runEstablishedActions_hands {sys : Sys} {index : Nat} (live : (sys.fsm index).state = .established) :
    Soundly (HandsOver index) sys (sys.runEstablishedActions code index).2 := by
  have lifted := untouched_delivers.soundly
  have first := @advertiseExisting_untouched code sys index .ipv4
  unfold runEstablishedActions
  dsimp only
  split
  · rename_i middle walked
    rw [walked] at first
    have second := @advertiseExisting_untouched code middle index .ipv6
    split
    · rename_i later done
      rw [done] at second
      exact announced_hands index _ (lifted.trans first second)
    · rename_i later _ done
      rw [done] at second
      exact torn_hands (lifted.trans first second) live
  · rename_i middle _ walked
    rw [walked] at first
    exact torn_hands first live

/-- Becoming established takes the queue and hands it to the callback. -/
theorem becomeEstablished_hands (sys : Sys) (index : Nat) :
    Soundly (HandsOver index) sys (sys.becomeEstablished code index).2 := by
  intro sound
  have up : Moves index sys (sys.modify index Fsm.establish) := moves_modify sys index _ fun told reporting => by
    have next := reporting.setState .established
    exact ⟨next.callback, next.room, next.linked⟩
  have live : ((sys.modify index Fsm.establish).fsm index).state = .established := by
    rw [modify_fsm_self]
    exact Fsm.setState_state _ _
  obtain ⟨safe, hands⟩ := @runEstablishedActions_hands code _ index live sound
  exact ⟨safe, hands.from up⟩

end Events

end Sys

end Libbgp
