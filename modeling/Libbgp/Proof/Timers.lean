/-
The timers of a session: when a tick ends it and when a tick sends a KEEPALIVE.
-/

import Libbgp.Construction.Message
import Libbgp.Proof.Runs

namespace Libbgp

open Library

section Elapsed

variable {now start : UInt64} {seconds : UInt16}

/-- The elapsed time is a difference of machine integers, which is the real one when the clock did not go back. -/
theorem elapsed_of_le (ordered : start ≤ now) (due : seconds.toUInt64 * 1000 ≤ now - start) :
    start.toNat + seconds.toNat * 1000 ≤ now.toNat := by
  have small : seconds.toNat < 65536 := seconds.toNat_lt
  have span : (seconds.toUInt64 * 1000).toNat = seconds.toNat * 1000 := by
    rw [UInt64.toNat_mul, UInt16.toNat_toUInt64]
    exact Nat.mod_eq_of_lt (show seconds.toNat * 1000 < 2 ^ 64 by omega)
  have passed := UInt64.le_iff_toNat_le.mp due
  rw [span, UInt64.toNat_sub_of_le _ _ ordered] at passed
  have order := UInt64.le_iff_toNat_le.mp ordered
  omega

end Elapsed

namespace Sys

variable {code : MessageCode} {index : Nat} {now : UInt64} {sys after : Sys} {err : Err}

/-- No KEEPALIVE is sent on the session. -/
def Mute (index : Nat) (before after : Sys) : Prop :=
  ∃ news, after.trace = news ++ before.trace ∧ ∀ moment ∈ news, moment.obs ≠ .sent index .keepalive

theorem mute_of_trace (same : after.trace = sys.trace) : Mute index sys after :=
  ⟨[], same, fun _ member => absurd member List.not_mem_nil⟩

theorem Mute.trans {first second third : Sys} (left : Mute index first second) (right : Mute index second third) :
    Mute index first third := by
  obtain ⟨older, olderTrace, olderMute⟩ := left
  obtain ⟨newer, newerTrace, newerMute⟩ := right
  refine ⟨newer ++ older, by rw [newerTrace, olderTrace, List.append_assoc], fun moment member => ?_⟩
  rcases List.mem_append.mp member with new | old
  · exact newerMute moment new
  · exact olderMute moment old

theorem mute_observe (sys : Sys) {obs : Obs} (other : obs ≠ .sent index .keepalive) :
    Mute index sys (sys.observe obs) := by
  refine ⟨[_], rfl, fun moment member => ?_⟩
  rw [List.mem_singleton.mp member]
  exact other

theorem mute_closes (index : Nat) : Closes (Mute index) where
  refl _ := mute_of_trace rfl
  trans := .trans
  alloc _ _ _ := mute_of_trace rfl
  sends _ _ := mute_of_trace rfl
  observe sys obs routine := mute_observe sys fun same => by rw [same] at routine; exact routine
  discard _ _ _ _ _ _ _ _ := mute_of_trace rfl
  close sys other := mute_observe (sys.modify other Fsm.snapshotTeardown) nofun
  drain _ _ := mute_of_trace rfl
  notified sys _ _ _ := mute_observe sys nofun
  ended sys _ := mute_observe sys nofun

/-- The end of a session respects what its teardown respects. -/
theorem Closes.loseRoutes {relation : Sys → Sys → Prop} (closes : Closes relation) (sys : Sys) (index : Nat)
    (established : Bool) (peer : RouterId) : Soundly relation sys (sys.loseRoutes code index established peer) := by
  have lifted := closes.toBears.soundly
  have failing : ∀ other generation later, later.Failing other →
      Soundly relation later (sys.fail code other generation later) := fun other generation later _ =>
    closes.fail sys other generation later
  unfold Sys.loseRoutes
  split
  · exact lifted.trans (@Discards.discardPeerRoutesPublish code _ _ closes.toDiscards failing sys peer)
      (@Delivers.publishEvent code _ _ lifted.delivers failing _ 0 (.sessionDown index)
        (.ofObserve (closes.ended _ index)))
  · exact lifted.refl sys

theorem mute_send (sys : Sys) (other : Nat) {message : Message} (unlike : message ≠ .keepalive) :
    Mute index sys (sys.send other message .control).2 := by
  rcases send_cases sys other .control message with ⟨rest, sent⟩ | ⟨err, rest, -, failed⟩
  · rw [sent]
    refine mute_observe { sys with sends := rest } fun same => unlike ?_
    exact (Obs.sent.inj same).2
  · rw [failed]
    exact mute_observe { sys with sends := rest } nofun

/-- The session is closed, its routes are withdrawn, and its changes are reported. -/
theorem ended_mute (sound : sys.Sound) {closed : Sys} (shut : Soundly (Mute index) sys closed) (established : Bool)
    (peer : RouterId) (changes : List (FsmState × FsmState)) :
    Mute index sys ((closed.loseRoutes code index established peer).dispatch index changes) :=
  ((mute_closes index).toBears.soundly.trans shut ((mute_closes index).toBears.soundly.trans
    ((mute_closes index).loseRoutes closed index established peer) ((mute_closes index).dispatch _ index changes))
      sound).2

/-- What a tick finds due. -/
structure Timed (now : UInt64) (sys after : Sys) (index : Nat) (err : Err) : Prop where
  expired : (sys.fsm index).state ≠ .idle → err = .ok → (after.fsm index).state = .idle →
    (sys.fsm index).holdExpired now = true
  due : ¬ Mute index sys after → (sys.fsm index).keepaliveDue now = true

/-- A tick of a clock that runs: the time is recorded, and one of the timers may be due. -/
theorem ticked_timed (sound : sys.Sound) {clocked : Sys}
    (clock : clocked = sys.modify index fun fsm => { fsm with currentMs := now })
    (running : (sys.fsm index).clockInitialized = true) (ticked : sys.tick code index now = (err, after)) :
    Timed now sys after index err := by
  have quiet : Mute index sys clocked := mute_of_trace (by rw [clock]; rfl)
  have soundNow : clocked.Sound := by rw [clock]; exact sound
  have session : clocked.fsm index = { sys.fsm index with currentMs := now } := by rw [clock, modify_fsm_self]
  have state : (clocked.fsm index).state = (sys.fsm index).state := by rw [session]
  rw [Sys.tick, running, if_neg (by decide), ← clock] at ticked
  dsimp only at ticked
  split at ticked
  · -- The hold timer has run out; what follows sends no KEEPALIVE.
    rename_i expired
    rw [session] at expired
    obtain ⟨rfl, rfl⟩ := Prod.mk.inj ticked
    refine ⟨fun _ _ _ => expired, fun heard => absurd (quiet.trans (ended_mute soundNow ?_ _ _ _)) heard⟩
    intro sound
    have closed := (mute_closes index).closeDrain clocked index sound
    exact ⟨(still_notify _ index 4 0).sound closed.1, closed.2.trans (mute_send _ index nofun)⟩
  split at ticked
  · rename_i due
    rw [session] at due
    refine ⟨fun live done idle => ?_, fun _ => due⟩
    rcases send_cases clocked index .control .keepalive with ⟨rest, sent⟩ | ⟨wrong, rest, failed, unsent⟩
    · rw [sent] at ticked
      obtain ⟨rfl, rfl⟩ := Prod.mk.inj ticked
      refine absurd ?_ live
      rw [← state, ← idle]
      simp
    · rw [unsent] at ticked
      split at ticked
      · rename_i kept
        exact absurd (congrArg Prod.fst kept) failed
      · rename_i same
        have answer : wrong = _ := congrArg Prod.fst same
        exact absurd (answer.trans ((congrArg Prod.fst ticked).trans done)) failed
  · obtain ⟨rfl, rfl⟩ := Prod.mk.inj ticked
    exact ⟨fun live _ idle => absurd (state.symm.trans idle) live, fun heard => absurd quiet heard⟩

theorem tick_timed (sound : sys.Sound) (ticked : sys.tick code index now = (err, after)) :
    Timed now sys after index err := by
  by_cases running : (sys.fsm index).clockInitialized = true
  · exact ticked_timed sound rfl running ticked
  · rw [Sys.tick, if_pos (by simp [running])] at ticked
    obtain ⟨rfl, rfl⟩ := Prod.mk.inj ticked
    refine ⟨fun live _ idle => absurd ?_ live, fun heard => absurd (mute_of_trace rfl) heard⟩
    rw [← idle, startClock, modify_fsm_self]

/-- In every run a tick whose time is not before the recorded times ends a session for silence only when the
hold time has passed since the last packet, and sends a KEEPALIVE only when the interval has passed. -/
theorem tick_waits {calls : Sys → Step → Prop} {writes : Ribs → Ribs → Prop} {members : List Member} {alloc : Allocator}
    {sends : List Err} (reached : Reach code calls writes (init members) sys)
    (ticked : Sys.perform code { sys with alloc := alloc, sends := sends } index (.tick now) = (err, after))
    (received : (sys.fsm index).lastRxMs ≤ now) (kept : (sys.fsm index).lastKeepaliveMs ≤ now) :
    ((sys.fsm index).state ≠ .idle → err = .ok → (after.fsm index).state = .idle →
      (sys.fsm index).negotiatedHoldTime ≠ 0 ∧
        (sys.fsm index).lastRxMs.toNat + (sys.fsm index).negotiatedHoldTime.toNat * 1000 ≤ now.toNat) ∧
    (¬ Mute index sys after → (sys.fsm index).effectiveKeepaliveTime ≠ 0 ∧
      (sys.fsm index).lastKeepaliveMs.toNat + (sys.fsm index).effectiveKeepaliveTime.toNat * 1000 ≤ now.toNat) := by
  have sound := reached.sound (init_sound members)
  have timed := @tick_timed code index now { sys with alloc := alloc, sends := sends } after err sound ticked
  refine ⟨fun live done idle => ?_, fun heard => ?_⟩
  · have expired := timed.expired live done idle
    simp only [Fsm.holdExpired, Bool.and_eq_true, bne_iff_ne, decide_eq_true_eq] at expired
    exact ⟨expired.1.1, elapsed_of_le received expired.2⟩
  · have due := timed.due heard
    simp only [Fsm.keepaliveDue, Bool.and_eq_true, bne_iff_ne, decide_eq_true_eq] at due
    exact ⟨due.1.2, elapsed_of_le kept due.2⟩

/-- An established session that was ticked at these times. -/
def sampleTicked (times : List UInt64) : Sys :=
  (init [.session (sampleParams 65002)]).run libbgpCode
    (sampleUp 0 65002 0x0a000002 ++ times.map fun now => calmStep 0 (.tick now))

theorem tick_waits_sample :
    ((sampleTicked [1000, 91000]).fsm 0).state = .idle ∧
      ((sampleTicked [1000]).fsm 0).lastRxMs.toNat +
        ((sampleTicked [1000]).fsm 0).negotiatedHoldTime.toNat * 1000 ≤ 91000 := by
  have idle : ((sampleTicked [1000, 91000]).fsm 0).state = .idle := by decide +kernel
  have reached : Reach libbgpCode (fun _ _ => True) (fun _ _ => False) (init [.session (sampleParams 65002)])
      (sampleTicked [1000]) := reach_run _ _ fun _ _ _ => trivial
  exact ⟨idle, ((@tick_waits libbgpCode 0 91000 (sampleTicked [1000]) _ _ _ _ _ [] [] reached Prod.mk.eta.symm
    (by decide +kernel) (by decide +kernel)).1 (by decide +kernel) (by decide +kernel) idle).2⟩

/-- A clock that goes back by a millisecond ends a session and makes a KEEPALIVE due at once. -/
theorem tick_goes_back :
    (((sampleTicked [1000]).fsm 0).lastRxMs = 1000 ∧ ((sampleTicked [1000]).fsm 0).state = .established ∧
      ((sampleTicked [1000]).perform libbgpCode 0 (.tick 999)).1 = .ok ∧
      (((sampleTicked [1000]).perform libbgpCode 0 (.tick 999)).2.fsm 0).state = .idle) ∧
    ((sampleTicked [1000, 31000]).fsm 0).lastKeepaliveMs = 31000 ∧
      ∃ moment, ((sampleTicked [1000, 31000]).perform libbgpCode 0 (.tick 30999)).2.trace =
        moment :: (sampleTicked [1000, 31000]).trace ∧ moment.obs = .sent 0 .keepalive :=
  ⟨by decide +kernel, by decide +kernel, _, rfl, rfl⟩

end Sys

end Libbgp
