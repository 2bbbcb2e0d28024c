/-
The calls on a session and its state-change callback: which calls hand the queue over, and what the
callback knows when they return.
-/

import Libbgp.Construction.Message
import Libbgp.Proof.StateQueue

namespace Libbgp

open Library

namespace Fsm

/-- Calls that hand over whatever is queued. -/
def handsOver (fsm : Fsm) : Call → Bool
  | .start => fsm.params.config.localOpenValid && fsm.statePreOpen
  | .enterConnect => fsm.statePreOpen
  | .enterActive => fsm.statePreOpen
  | .packet .notification => true
  | .packet .keepalive =>
    fsm.state == .openConfirm && !fsm.passiveOpenSendPending && !fsm.localKeepaliveSendPending
  | .packet _ => false
  | .malformed _ notifyCode _ => notifyCode != 0
  | .tick now => fsm.clockInitialized && fsm.holdExpired now
  | .stop => true
  | .resetSoft => true
  | .resetHard => true

/-- Packets before ESTABLISHED may move the session and leave the transition in the queue. -/
def leavesQueued (fsm : Fsm) : Call → Bool
  | .packet .notification => false
  | .packet _ => fsm.state != .established
  | _ => false

end Fsm

namespace Sys

section Calls

variable {code : MessageCode} {index : Nat} {first before after : Sys} {sys : Sys}

theorem Soundly.mono {strong weak : Sys → Sys → Prop} (related : Soundly strong before after)
    (implied : strong before after → weak before after) : Soundly weak before after :=
  fun sound => ⟨(related sound).1, implied (related sound).2⟩

theorem Soundly.chain (left : Soundly (Does index) first before) (right : Soundly (Does index) before after) :
    Soundly (Does index) first after :=
  fun sound => ⟨(right (left sound).1).1, (left sound).2.trans (right (left sound).1).2⟩

theorem Soundly.untouched (quiet : Soundly Untouched before after) : Soundly (Does index) before after :=
  quiet.mono fun untouched => untouched.meanwhile.does index

theorem Soundly.events (events : Soundly Meanwhile before after) : Soundly (Does index) before after :=
  events.mono fun meanwhile => meanwhile.does index

theorem Soundly.hands (hands : Soundly (HandsOver index) before after) : Soundly (Does index) before after :=
  hands.mono HandsOver.does

theorem does_modify (sys : Sys) (index : Nat) (change : Fsm → Fsm)
    (follows : ∀ told, (sys.fsm index).Reporting told → (change (sys.fsm index)).Reporting told) :
    Soundly (Does index) sys (sys.modify index change) :=
  fun sound => ⟨sound, (moves_modify sys index change follows).does⟩

theorem does_close (sys : Sys) (index : Nat) : Soundly (Does index) sys (sys.snapshotTeardown index) :=
  fun sound => ⟨sound, (moves_close sys index).does⟩

theorem drainAndDispatch_hands {later : Sys} (moves : Soundly (Moves index) sys later) :
    Soundly (HandsOver index) sys (later.drainAndDispatch index) := by
  intro sound
  obtain ⟨safe, moved⟩ := moves sound
  have drained : (later.drain index).2.Sound := safe
  exact ⟨drained.dispatch _ _, later, (later.drain index).2, moved, (untouched_delivers.refl _).meanwhile,
    ⟨rfl, rfl⟩, rfl⟩

theorem abort_does (sys : Sys) (index : Nat) (notify : Option (UInt8 × UInt8)) :
    Soundly (Does index) sys (sys.abort index notify) := by
  unfold abort
  split
  · exact does_close sys index
  · exact (does_close sys index).chain (send_untouched _ index _ _).untouched

theorem enterPreOpenState_hands (early : (sys.fsm index).statePreOpen = true) (state : FsmState) :
    Soundly (HandsOver index) sys (sys.enterPreOpenState index state).2 := by
  unfold enterPreOpenState
  rw [if_pos early]
  refine drainAndDispatch_hands fun sound => ⟨sound, moves_modify sys index _ fun told reporting => ?_⟩
  have next := reporting.setState state
  exact ⟨next.callback, next.room, next.linked⟩

/-- The state goes back when the OPEN cannot be sent. The callback is told of both transitions. -/
theorem start_hands (valid : (sys.fsm index).params.config.localOpenValid = true)
    (early : (sys.fsm index).statePreOpen = true) : Soundly (HandsOver index) sys (sys.start index).2 := by
  have opened : Moves index sys (sys.modify index fun fsm => (fsm.setState .openSent).clearPeer) :=
    moves_modify sys index _ fun told reporting => by
      have next := reporting.setState .openSent
      exact ⟨next.callback, next.room, next.linked⟩
  have sent := sendOpen_untouched (sys.modify index fun fsm => (fsm.setState .openSent).clearPeer) index
  unfold start
  dsimp only
  rw [if_neg (by simp [valid]), if_neg (by simp [early])]
  generalize (sys.modify index fun fsm => (fsm.setState .openSent).clearPeer).sendOpen index = outcome at sent
  obtain ⟨err, later⟩ := outcome
  refine drainAndDispatch_hands fun sound => ?_
  obtain ⟨safe, quiet⟩ := sent sound
  have moved := opened.trans (quiet.moves index)
  dsimp only
  split
  · exact ⟨safe, moved⟩
  · refine ⟨safe, moved.trans (moves_modify later index _ fun told reporting => ?_)⟩
    have next := reporting.setState (sys.fsm index).state
    exact ⟨next.callback, next.room, next.linked⟩

/-- A reset hands its queue over. -/
theorem resetCommon_hands (sys : Sys) (index : Nat) (sendNotify : Bool) (subcode : UInt8) :
    Soundly (HandsOver index) sys (sys.resetCommon code index sendNotify subcode).2 := by
  have lifted := meanwhile_discards.toBears.soundly
  have discarded : ∀ (early : Bool) (later : Sys) (peer : RouterId), Soundly Meanwhile later
      (if early then later.discardPeerRoutesPublish code (later.fail code) peer else later) := by
    intro early later peer
    split
    · exact meanwhile_discards.discardPeerRoutesPublish (fail_meanwhile later) later peer
    · exact lifted.refl later
  have told : ∀ (notify : Bool) (later : Sys), Soundly Meanwhile later
      (if notify then later.sendNotification index 6 subcode else (.ok, later)).2 := by
    intro notify later
    split
    · exact (send_untouched later index _ _).mono Untouched.meanwhile
    · exact lifted.refl later
  have ended : ∀ (early established : Bool) (later : Sys) (peer : RouterId), Soundly Meanwhile later
      (if early then later.publishEvent code (later.fail code) 0 (.sessionDown index)
        else later.loseRoutes code index established peer) := by
    intro early established later peer
    split
    · exact lifted.delivers.publishEvent (fail_meanwhile later) later _ _
        (.ofObserve (untouched_observe later fun _ => rfl).meanwhile)
    · exact loseRoutes_meanwhile later index established peer
  exact closing_soundly (lifted.trans (lifted.trans (discarded _ _ _) (told _ _)) (ended _ _ _ _))

theorem onNotification_hands (sys : Sys) (index : Nat) :
    Soundly (HandsOver index) sys (sys.onNotification code index) :=
  closing_soundly (loseRoutes_meanwhile _ index _ _)

theorem onMalformed_hands (sys : Sys) (index : Nat) (err : Err) {notifyCode : UInt8} (subcode : UInt8)
    (notified : notifyCode ≠ 0) :
      Soundly (HandsOver index) sys (sys.onMalformed code index err notifyCode subcode).2 := by
  unfold onMalformed
  rw [if_neg notified]
  exact closing_soundly (meanwhile_discards.toBears.soundly.trans (loseRoutes_meanwhile _ index _ _)
    ((send_untouched _ index _ _).mono Untouched.meanwhile))

theorem endSession_hands (sys : Sys) (index : Nat) (notifyCode subcode : UInt8) :
    Soundly (HandsOver index) sys (sys.endSession code index notifyCode subcode).2 :=
  closing_soundly (meanwhile_discards.toBears.soundly.trans ((send_untouched _ index _ _).mono Untouched.meanwhile)
    (loseRoutes_meanwhile _ index _ _))

theorem HandsOver.tends (hands : HandsOver index before after) : Tends index before after :=
  ⟨hands.does, fun reports _ => (hands.settles reports).2⟩

theorem Soundly.pursue (left : Soundly (Tends index) first before) (right : Soundly (Tends index) before after) :
    Soundly (Tends index) first after :=
  fun sound => ⟨(right (left sound).1).1, (left sound).2.trans (right (left sound).1).2⟩

/-- An UPDATE leaves nothing new queued. -/
theorem onUpdate_tends (sys : Sys) (index : Nat) (update : UpdateMsg) :
    Soundly (Tends index) sys (sys.onUpdate code index update).2 := by
  unfold onUpdate
  dsimp only
  split
  · have ended := (@endSession_hands code sys index 3 errMalformedAttrList).mono HandsOver.tends
    generalize sys.endSession code index 3 errMalformedAttrList = result at ended
    obtain ⟨err, last⟩ := result
    cases err <;> exact ended
  intro sound
  rcases applied : (sys.fsm index).applyUpdate code update sys.ribs sys.alloc with ⟨err, subcode, state⟩
  by_cases good : err = .ok
  · subst good
    have stored : Soundly (Tends index) sys { sys with ribs := state.ribs, alloc := state.alloc } := fun sound =>
      ⟨(applied_tables sound applied).1, (untouched_tables sys _ _).meanwhile.tends index⟩
    have marked : Soundly (Tends index) { sys with ribs := state.ribs, alloc := state.alloc }
        (sys.storeApplied index state) := fun sound =>
      ⟨sound, tends_modify _ index _ (Fsm.markRxCurrent_queue _)⟩
    have published := @Bears.publishUpdateEvents code _ _ meanwhile_discards.toBears.soundly
      (@fail_meanwhile code (sys.storeApplied index state)) index (sys.fsm index).sessionGeneration
      (sys.fsm index).peerBgpId state.journal.changes (sys.storeApplied index state)
    exact (stored.pursue (marked.pursue (published.mono fun events => events.tends index))) sound
  by_cases bad : err = .invalid
  · subst bad
    have undone := @undone_rollback code ((sys.snapshotTeardown index).drain index).2 (sys.fsm index) update
      .invalid subcode state
      sound applied good
    have restored : Soundly Meanwhile ((sys.snapshotTeardown index).drain index).2
      { ((sys.snapshotTeardown index).drain index).2 with
        ribs := (state.rollback (sys.fsm index).peerBgpId).ribs
        alloc := (state.rollback (sys.fsm index).peerBgpId).alloc } := fun _ =>
      ⟨undone.sound, (untouched_tables _ _ _).meanwhile⟩
    have lifted := meanwhile_discards.toBears.soundly
    have told := (send_untouched { ((sys.snapshotTeardown index).drain index).2 with
      ribs := (state.rollback (sys.fsm index).peerBgpId).ribs
      alloc := (state.rollback (sys.fsm index).peerBgpId).alloc } index (.notification 3 subcode) .control).mono
      Untouched.meanwhile
    exact ((closing_soundly (lifted.trans restored (lifted.trans told (loseRoutes_meanwhile _ index _ _)))).mono
      HandsOver.tends) sound
  · have undone := undone_rollback sound applied good
    cases err with
    | ok => exact absurd rfl good
    | invalid => exact absurd rfl bad
    | _ => exact ⟨undone.sound, (untouched_tables sys _ _).meanwhile.tends index⟩

theorem onEstablished_tends (sys : Sys) (index : Nat) (packet : Packet) :
    Soundly (Tends index) sys (sys.onEstablished code index packet).2 := by
  cases packet with
  | keepalive => exact fun sound => ⟨sound, tends_modify sys index _ (Fsm.markRxCurrent_queue _)⟩
  | notification => exact (onNotification_hands sys index).mono HandsOver.tends
  | update msg => exact onUpdate_tends sys index msg
  | opening msg | unknown => exact (endSession_hands sys index 5 3).mono HandsOver.tends

section Clock

variable {sys : Sys} {now : UInt64}

/-- The hold time is over: the session ends and its queue is handed over. -/
theorem expired_hands (set : (sys.fsm index).clockInitialized = true)
    (expired : (sys.fsm index).holdExpired now = true) :
    Soundly (HandsOver index) sys (sys.tick code index now).2 := by
  have clock : Moves index sys (sys.modify index fun fsm => { fsm with currentMs := now }) :=
    moves_modify sys index _ fun told reporting => reporting.same ⟨rfl, rfl, rfl⟩
  have timeOut : ((sys.modify index fun fsm => { fsm with currentMs := now }).fsm index).holdExpired now = true := by
    rw [modify_fsm_self]
    exact expired
  have lifted := meanwhile_discards.toBears.soundly
  unfold tick
  dsimp only
  rw [if_neg (by simp [set]), if_pos timeOut]
  intro sound
  obtain ⟨safe, hands⟩ := closing_soundly (lifted.trans
    ((send_untouched (((sys.modify index fun fsm => { fsm with currentMs := now }).snapshotTeardown index).drain
      index).2 index
      (.notification 4 0) .control).mono Untouched.meanwhile)
    (@loseRoutes_meanwhile code _ index
      (((sys.modify index fun fsm => { fsm with currentMs := now }).fsm index).state ==
      .established) ((sys.modify index fun fsm => { fsm with currentMs := now }).fsm index).peerBgpId)) sound
  exact ⟨safe, hands.from clock⟩

/-- A tick leaves nothing new queued. -/
theorem tick_tends (sys : Sys) (index : Nat) (now : UInt64) :
    Soundly (Tends index) sys (sys.tick code index now).2 := by
  have started : Soundly (Tends index) sys (sys.startClock index now) := fun sound =>
    ⟨sound, tends_modify sys index (fun fsm => { fsm with
      currentMs := now, lastRxMs := now, lastKeepaliveMs := now, clockInitialized := true }) ⟨rfl, rfl, rfl⟩⟩
  have clock : Soundly (Tends index) sys (sys.modify index fun fsm => { fsm with currentMs := now }) := fun sound =>
    ⟨sound, tends_modify sys index _ ⟨rfl, rfl, rfl⟩⟩
  unfold tick
  split
  · exact started
  dsimp only
  split
  · have lifted := meanwhile_discards.toBears.soundly
    exact clock.pursue ((closing_soundly (lifted.trans ((send_untouched _ index _ _).mono Untouched.meanwhile)
      (loseRoutes_meanwhile _ index _ _))).mono HandsOver.tends)
  split
  · have sent := send_untouched (sys.modify index fun fsm => { fsm with currentMs := now }) index .keepalive .control
    split
    · rename_i later done
      rw [done] at sent
      have kept : Soundly (Tends index) later (later.modify index fun fsm => { fsm with lastKeepaliveMs := now }) :=
        fun sound => ⟨sound, tends_modify later index _ ⟨rfl, rfl, rfl⟩⟩
      exact clock.pursue ((sent.mono fun quiet => quiet.meanwhile.tends index).pursue kept)
    · rename_i later _ done
      rw [done] at sent
      exact clock.pursue ((sent.mono fun quiet => quiet.meanwhile.tends index).pursue
        ((closing_soundly (loseRoutes_meanwhile _ index _ _)).mono HandsOver.tends))
  · exact clock

end Clock

section Opening

section

variable (sys : Sys) (index : Nat)

theorem collisionRejectNew_does (peer : RouterId) :
    Soundly (Does index) sys (sys.collisionRejectNew index peer).2 := by
  have published := publishCollision_meanwhile sys (sys.fsm index).params.collisionSubId peer
  unfold collisionRejectNew
  dsimp only
  split
  · exact (untouched_delivers.soundly.refl sys).untouched
  · generalize sys.publishCollision (sys.fsm index).params.collisionSubId peer = outcome at published
    obtain ⟨handled, later⟩ := outcome
    dsimp only
    split
    · exact published.events.chain (does_close later index)
    · exact published.events

theorem acceptOpen_does (msg : OpenMsg) (passive : Bool) :
    Soundly (Does index) sys (sys.acceptOpen index msg passive).2 := by
  have decided := collisionRejectNew_does sys index msg.bgpId
  unfold acceptOpen
  split
  · rename_i later rejected
    rw [rejected] at decided
    exact decided.chain (send_untouched later index _ _).untouched
  · rename_i later accepted
    rw [accepted] at decided
    exact decided.chain (does_modify later index _ fun told reporting => reporting.acceptOpen msg passive)

theorem rollback_does (generation : UInt64) :
    Soundly (Does index) sys (sys.rollbackFailedLocalKeepalive index generation) := by
  unfold rollbackFailedLocalKeepalive
  dsimp only
  split
  · exact does_close sys index
  · exact (untouched_delivers.soundly.refl sys).untouched

/-- A packet in OpenSent keeps the queue of its session in step. -/
theorem onOpenSent_does (packet : Packet) : Soundly (Does index) sys (sys.onOpenSent code index packet).2 := by
  unfold onOpenSent
  split
  · rename_i msg
    split
    · exact abort_does sys index _
    have accepted := acceptOpen_does sys index msg false
    split
    · rename_i later rejected
      rw [rejected] at accepted
      exact accepted
    · rename_i later done
      rw [done] at accepted
      have sent := send_untouched later index .keepalive .control
      dsimp only
      split
      · rename_i last kept
        rw [kept] at sent
        have cleared : Soundly (Does index) last
            (last.modify index fun fsm => { fsm with localKeepaliveSendPending := false }) :=
          does_modify last index _ fun told reporting => reporting.same ⟨rfl, rfl, rfl⟩
        have reached := accepted.chain (sent.untouched.chain cleared)
        split
        · exact reached.chain (becomeEstablished_hands _ index).hands
        · exact reached
      · rename_i last _ failed
        rw [failed] at sent
        exact accepted.chain (sent.untouched.chain (rollback_does last index _))
  · exact abort_does sys index _

theorem onPreOpenOpen_does (msg : OpenMsg) : Soundly (Does index) sys (sys.onPreOpenOpen code index msg).2 := by
  unfold onPreOpenOpen
  split
  · exact abort_does sys index _
  have accepted := acceptOpen_does sys index msg true
  split
  · rename_i later rejected
    rw [rejected] at accepted
    exact accepted
  rename_i later done
  rw [done] at accepted
  have opened := sendOpen_untouched later index
  dsimp only
  split
  · rename_i next sent
    rw [sent] at opened
    have armed : Soundly (Does index) next (next.modify index fun fsm =>
        { fsm with passiveOpenSendPending := false, localKeepaliveSendPending := true }) :=
      does_modify next index _ fun told reporting => reporting.same ⟨rfl, rfl, rfl⟩
    have reached := accepted.chain (opened.untouched.chain armed)
    have kept := send_untouched (next.modify index fun fsm =>
      { fsm with passiveOpenSendPending := false, localKeepaliveSendPending := true }) index .keepalive .control
    split
    · rename_i last told
      rw [told] at kept
      split
      · exact reached.chain (kept.untouched.chain (becomeEstablished_hands last index).hands)
      · exact reached.chain (kept.untouched.chain
          (does_modify last index _ fun told reporting => reporting.same ⟨rfl, rfl, rfl⟩))
    · rename_i last _ failed
      rw [failed] at kept
      exact reached.chain (kept.untouched.chain (rollback_does last index _))
  · rename_i next _ failed
    rw [failed] at opened
    exact accepted.chain (opened.untouched.chain (rollback_does next index _))

/-- A packet in OpenConfirm keeps the queue of its session in step. -/
theorem onOpenConfirm_does (packet : Packet) :
    Soundly (Does index) sys (sys.onOpenConfirm code index packet).2 := by
  have marked : ∀ change : Fsm → Fsm, (sys.fsm index).SameQueue (change (sys.fsm index)) →
      Soundly (Does index) sys (sys.modify index change) := fun change same =>
    does_modify sys index change fun told reporting => reporting.same same
  have received := Fsm.markRxCurrent_queue (sys.fsm index)
  cases packet with
  | opening msg =>
    simp only [onOpenConfirm]
    split
    · split
      · exact abort_does sys index _
      · exact (untouched_delivers.soundly.refl sys).untouched
    · exact abort_does sys index _
  | keepalive =>
    simp only [onOpenConfirm]
    split
    · exact marked _ ⟨received.params, received.state, received.queue⟩
    split
    · exact marked _ ⟨received.params, received.state, received.queue⟩
    · exact (marked _ received).chain (becomeEstablished_hands _ index).hands
  | notification => exact does_close sys index
  | update msg | unknown => exact abort_does sys index _

end

end Opening

section Perform

variable {sys : Sys}

theorem received_untouched (sys : Sys) (index : Nat) (packet : Packet) :
    Soundly Untouched sys (sys.observe (.received index packet)) :=
  .ofObserve (untouched_observe sys fun _ => rfl)

/-- What a packet does to the queues of all sessions. -/
theorem onPacket_does (sys : Sys) (index : Nat) (packet : Packet) :
    Soundly (Does index) sys (sys.onPacket code index packet).2 := by
  have seen : Soundly (Does index) sys (sys.observe (.received index packet)) :=
    (received_untouched sys index packet).untouched
  unfold onPacket
  dsimp only
  split
  · exact seen.chain (onNotification_hands _ index).hands
  · exact seen.chain (onPreOpenOpen_does _ index _)
  · exact seen.chain (onPreOpenOpen_does _ index _)
  · exact seen.chain (onPreOpenOpen_does _ index _)
  · exact seen.chain (onOpenSent_does _ index _)
  · exact seen.chain (onOpenConfirm_does _ index _)
  · exact seen.chain ((onEstablished_tends _ index _).mono Tends.does)
  · exact seen

theorem onPacket_live (live : (sys.fsm index).state = .established) (packet : Packet) :
    sys.onPacket code index packet = (sys.observe (.received index packet)).onEstablished code index packet := by
  cases packet <;> simp only [onPacket, observe_fsm, live, onEstablished]

/-- The NOTIFICATION of the peer, in any state. -/
theorem notified_hands (sys : Sys) (index : Nat) :
    Soundly (HandsOver index) sys (sys.onPacket code index .notification).2 := by
  intro sound
  have seen := received_untouched sys index .notification sound
  obtain ⟨safe, hands⟩ := @onNotification_hands code (sys.observe (.received index .notification)) index seen.1
  exact ⟨safe, hands.from (seen.2.moves index)⟩

/-- The KEEPALIVE that completes a session. -/
theorem confirmed_hands (confirming : (sys.fsm index).state = .openConfirm)
    (opened : (sys.fsm index).passiveOpenSendPending = false)
    (sent : (sys.fsm index).localKeepaliveSendPending = false) :
    Soundly (HandsOver index) sys (sys.onPacket code index .keepalive).2 := by
  intro sound
  have seen := received_untouched sys index .keepalive sound
  have marked : Moves index (sys.observe (.received index .keepalive))
      ((sys.observe (.received index .keepalive)).modify index Fsm.markRxCurrent) :=
    moves_modify _ index _ fun told reporting => reporting.same (Fsm.markRxCurrent_queue _)
  have whole : sys.onPacket code index .keepalive =
      ((sys.observe (.received index .keepalive)).modify index Fsm.markRxCurrent).becomeEstablished code index := by
    simp only [onPacket, observe_fsm, confirming, onOpenConfirm, opened, sent, Bool.false_eq_true, if_false]
  obtain ⟨safe, hands⟩ := @becomeEstablished_hands code
    ((sys.observe (.received index .keepalive)).modify index Fsm.markRxCurrent) index seen.1
  rw [whole]
  exact ⟨safe, hands.from ((seen.2.moves index).trans marked)⟩

/-- A call that may not leave anything queued does not. -/
theorem perform_tends {call : Call} (quiet : (sys.fsm index).leavesQueued call = false) :
    Soundly (Tends index) sys (sys.perform code index call).2 := by
  have same : Soundly (Tends index) sys sys :=
    (untouched_delivers.soundly.refl sys).mono fun quiet => quiet.meanwhile.tends index
  have entered : ∀ state, Soundly (Tends index) sys (sys.enterPreOpenState index state).2 := by
    intro state
    by_cases early : (sys.fsm index).statePreOpen = true
    · exact (enterPreOpenState_hands early state).mono HandsOver.tends
    · unfold enterPreOpenState
      rw [if_neg early]
      exact same
  cases call with
  | start =>
    by_cases valid : (sys.fsm index).params.config.localOpenValid = true
    · by_cases early : (sys.fsm index).statePreOpen = true
      · exact (start_hands valid early).mono HandsOver.tends
      · simp only [perform, start, valid, early]
        exact same
    · simp only [perform, start, valid]
      exact same
  | enterConnect => exact entered .connect
  | enterActive => exact entered .active
  | stop => exact (resetCommon_hands sys index true adminShutdown).mono HandsOver.tends
  | resetSoft => exact (resetCommon_hands sys index true adminReset).mono HandsOver.tends
  | resetHard => exact (resetCommon_hands sys index false 0).mono HandsOver.tends
  | packet packet =>
    by_cases live : (sys.fsm index).state = .established
    · have seen := (received_untouched sys index packet).mono fun quiet => quiet.meanwhile.tends index
      simp only [perform, onPacket_live live]
      exact seen.pursue (onEstablished_tends _ index packet)
    · cases packet with
      | notification => exact (notified_hands sys index).mono HandsOver.tends
      | _ => simp [Fsm.leavesQueued, live] at quiet
  | malformed err notifyCode subcode =>
    by_cases notified : notifyCode = 0
    · simp only [perform, onMalformed, if_pos notified]
      exact same
    · exact (onMalformed_hands sys index err subcode notified).mono HandsOver.tends
  | tick now => exact tick_tends sys index now

/-- A call that hands over does so in any state of the queue. -/
theorem perform_hands {call : Call} (handing : (sys.fsm index).handsOver call = true) :
    Soundly (HandsOver index) sys (sys.perform code index call).2 := by
  cases call with
  | start =>
    simp only [Fsm.handsOver, Bool.and_eq_true] at handing
    exact start_hands handing.1 handing.2
  | enterConnect => exact enterPreOpenState_hands handing .connect
  | enterActive => exact enterPreOpenState_hands handing .active
  | stop => exact resetCommon_hands sys index true adminShutdown
  | resetSoft => exact resetCommon_hands sys index true adminReset
  | resetHard => exact resetCommon_hands sys index false 0
  | packet packet =>
    cases packet with
    | notification => exact notified_hands sys index
    | keepalive =>
      simp only [Fsm.handsOver, Bool.and_eq_true, beq_iff_eq, Bool.not_eq_true'] at handing
      exact confirmed_hands handing.1.1 handing.1.2 handing.2
    | _ => cases handing
  | malformed err notifyCode subcode =>
    exact onMalformed_hands sys index err subcode (by simpa [Fsm.handsOver] using handing)
  | tick now =>
    simp only [Fsm.handsOver, Bool.and_eq_true] at handing
    exact expired_hands handing.1 handing.2

/-- Every call keeps the queue of its session in step, and disturbs the others by events only. -/
theorem perform_does (sys : Sys) (index : Nat) (call : Call) :
    Soundly (Does index) sys (sys.perform code index call).2 := by
  cases call with
  | packet packet => exact onPacket_does sys index packet
  | _ => exact (perform_tends rfl).mono Tends.does

end Perform

end Calls

section Runs

variable {code : MessageCode} {sys : Sys} {index : Nat}

/-- A step keeps the queue of every session in step with its state. -/
theorem step_keeps (sound : sys.Sound) (index : Nat) (step : Step) : Keeps index sys (sys.step code step) := by
  intro reports
  unfold Sys.step
  split
  · obtain ⟨-, does⟩ := @perform_does code (sys.answer step) step.session step.call sound
    by_cases own : index = step.session
    · subst own
      exact does.keeps reports
    · exact (does.others index own).keeps reports
  · exact reports

/-- After the call nothing is queued: it hands the queue over, or nothing is queued before it and it is no
packet that may leave something there. -/
def Flushes (index : Nat) (sys : Sys) (step : Step) : Prop :=
  (step.session = index ∧ index < sys.count ∧ (sys.fsm index).handsOver step.call = true) ∨
    ((sys.fsm index).stateChanges = [] ∧ (step.session = index → (sys.fsm index).leavesQueued step.call = false))

/-- A call that flushes leaves no change queued. -/
theorem step_flushes (sound : sys.Sound) {step : Step} (reports : sys.Reports index)
    (flushes : sys.Flushes index step) : ((sys.step code step).fsm index).stateChanges = [] := by
  unfold Sys.step
  split
  · rcases flushes with ⟨rfl, -, handing⟩ | ⟨empty, quiet⟩
    · obtain ⟨-, hands⟩ := @perform_hands code step.session (sys.answer step) step.call handing sound
      exact (hands.settles reports).2
    · by_cases own : index = step.session
      · subst own
        obtain ⟨-, tends⟩ := @perform_tends code step.session (sys.answer step) step.call (quiet rfl) sound
        exact tends.rests reports empty
      · obtain ⟨-, does⟩ := @perform_does code (sys.answer step) step.session step.call sound
        exact (does.others index own).rests empty
  · rename_i absent
    rcases flushes with ⟨rfl, present, -⟩ | ⟨empty, -⟩
    · exact absurd present absent
    · exact empty

theorem init_reports (members : List Member) (callback : ((init members).fsm index).params.hasStateChangeCb = true) :
    (init members).Reports index := by
  obtain ⟨params, fresh⟩ := (init_fresh members).fsm index
  unfold Reports
  rw [(init_fresh members).trace]
  rw [fresh] at callback ⊢
  exact ⟨callback, Nat.zero_le _, .done _⟩

/-- In every run the callback and the queue together lead to the state of the session. -/
theorem Reach.reports {calls : Sys → Step → Prop} {writes : Ribs → Ribs → Prop} {members : List Member}
    (callback : ((init members).fsm index).params.hasStateChangeCb = true)
    (reached : Reach code calls writes (init members) sys) : sys.Sound ∧ sys.Reports index :=
  reached.keeps (init_sound members) (init_reports members callback)
    (fun _ step sound reports _ => step_keeps sound index step reports) (fun _ _ reports _ => reports)

/-- When a call returns that settles the queue, the pairs that the callback was told of form a chain from
IDLE to the state of the session, whatever the run before it. -/
theorem flushed_callback_knows_state {writes : Ribs → Ribs → Prop} {members : List Member} (index : Nat)
    (callback : ((init members).fsm index).params.hasStateChangeCb = true)
    (reached : Reach code (fun _ _ => True) writes (init members) sys) (step : Step)
    (flushes : sys.Flushes index step) :
    Linked .idle (reported index (sys.step code step).trace) ((sys.step code step).fsm index).state := by
  obtain ⟨sound, reports⟩ := reached.reports callback
  have after := @step_keeps code sys sound index step reports
  have linked := after.linked
  rw [step_flushes sound reports flushes, List.append_nil] at linked
  exact linked

def reportingParams : FsmParams := { sampleParams 65002 with hasStateChangeCb := true }

/-- The KEEPALIVE that completes a session: the callback has been told of three transitions. -/
theorem flushed_callback_knows_state_sample :
    let before := (init [.session reportingParams]).run libbgpCode
      ((sampleUp 0 65002 0x0a000002).take 2)
    let step := calmStep 0 (.packet .keepalive)
    before.Flushes 0 step ∧ Linked .idle (reported 0 (before.step libbgpCode step).trace)
      ((before.step libbgpCode step).fsm 0).state := by
  have flushes : Flushes 0 ((init [.session reportingParams]).run libbgpCode ((sampleUp 0 65002 0x0a000002).take 2))
      (calmStep 0 (.packet .keepalive)) := .inl (by decide +kernel)
  exact ⟨flushes, @flushed_callback_knows_state libbgpCode _ (fun _ _ => True) [.session reportingParams] 0 rfl
    (reach_run _ _ fun _ _ _ => trivial) _ flushes⟩

/-- The OPEN of the peer was accepted and the session is in OPEN_CONFIRM, but the callback still believes
in OPEN_SENT. -/
theorem callback_misses_open_confirm :
    let sys := (init [.session reportingParams]).run libbgpCode ((sampleUp 0 65002 0x0a000002).take 2)
    (sys.fsm 0).state = .openConfirm ∧ reported 0 sys.trace = [(.idle, .openSent)] ∧
      ¬ Linked .idle (reported 0 sys.trace) (sys.fsm 0).state := by
  have state : (((init [.session reportingParams]).run libbgpCode ((sampleUp 0 65002 0x0a000002).take 2)).fsm 0).state =
      .openConfirm := by decide +kernel
  have told : reported 0 ((init [.session reportingParams]).run libbgpCode
    ((sampleUp 0 65002 0x0a000002).take 2)).trace =
      [(.idle, .openSent)] := by decide +kernel
  refine ⟨state, told, ?_⟩
  rw [state, told]
  intro linked
  cases linked with
  | next head tail =>
    cases head
    cases tail

end Runs

end Sys

end Libbgp
