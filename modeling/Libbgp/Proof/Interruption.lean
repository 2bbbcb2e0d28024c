/-
An OPEN handling that a stop, a reset or a NOTIFICATION interrupts.
-/

import Libbgp.Proof.ThreadRuns

namespace Libbgp

variable {stage : Stage}

/-- The call handles an OPEN of the peer, or what follows from it. -/
def Stage.handlesOpen : Stage → Bool
  | .colliding _ _ | .opening _ | .opened _ | .between _ | .confirming _ _ | .confirmed _ _ | .failed _
  | .advertising _ | .losing _ => true
  | _ => false

theorem Stage.busy_of_handlesOpen (handles : stage.handlesOpen = true) : stage.isDone = false := by
  cases stage with
  | done => cases handles
  | _ => rfl

/-- The handling is in the middle of `fsm_collision_reject_new_locked`. -/
def Stage.isColliding : Stage → Bool
  | .colliding _ _ => true
  | _ => false

/-- A stop, a reset or a NOTIFICATION is processed. -/
def Move.Interrupts (move : Move) : Prop :=
  ∃ call verdict, move = .call move.thread call verdict ∧
    (call = .stop ∨ call = .resetSoft ∨ call = .resetHard ∨ call = .packet .notification)

/-- The handling works for an attempt that is over. -/
def Stage.Behind (generation : UInt64) (stage : Stage) : Prop :=
  (stage.handlesOpen = true ∨ stage = .done) ∧ stage.isColliding = false ∧
    ∀ attempt, stage.attempt = some attempt → attempt.toNat < generation.toNat

/-- A handling whose attempt is over changes nothing, or ends the session. -/
theorem Fsm.proceed_behind {fsm : Fsm} (behind : stage.Behind fsm.sessionGeneration) (err : Err) (handled : Bool) :
    (fsm.proceed err handled stage).2.Behind fsm.sessionGeneration ∧
      ((fsm.proceed err handled stage).1 = fsm ∨ (fsm.proceed err handled stage).1.state = .idle) := by
  obtain ⟨handles, settled, past⟩ := behind
  have ended (attempt : UInt64) (works : stage.attempt = some attempt) : fsm.attempting attempt = false := by
    rw [Bool.eq_false_iff]
    intro current
    have older := past attempt works
    rw [((fsm.attempting_iff attempt).mp current).2] at older
    exact Nat.lt_irrefl _ older
  have returned : Stage.done.Behind fsm.sessionGeneration := ⟨.inr rfl, rfl, by simp [Stage.attempt]⟩
  have moves {later : Stage} (handles : later.handlesOpen = true) (settled : later.isColliding = false)
      (same : later.attempt = stage.attempt) : later.Behind fsm.sessionGeneration :=
    ⟨.inl handles, settled, by rwa [same]⟩
  cases stage with
  | done => exact ⟨returned, .inl rfl⟩
  | starting | started | beating | beaten => simp [Stage.handlesOpen] at handles
  | colliding => cases settled
  | opening generation =>
    dsimp only [proceed]
    split <;> exact ⟨moves rfl rfl rfl, .inl rfl⟩
  | opened generation =>
    have idles : fsm.proceed err handled (.opened generation) = (fsm, .done) := by simp [proceed, ended generation rfl]
    rw [idles]
    exact ⟨returned, .inl rfl⟩
  | between generation =>
    have idles : fsm.proceed err handled (.between generation) = (fsm, .done) := by simp [proceed, ended generation rfl]
    rw [idles]
    exact ⟨returned, .inl rfl⟩
  | confirming generation passive =>
    dsimp only [proceed]
    split <;> exact ⟨moves rfl rfl rfl, .inl rfl⟩
  | confirmed generation passive =>
    have idles : fsm.proceed err handled (.confirmed generation passive) = (fsm, .done) := by
      simp [proceed, confirmedSection, ended generation rfl]
    rw [idles]
    exact ⟨returned, .inl rfl⟩
  | failed generation =>
    dsimp only [proceed, rollbackFailedLocalKeepalive]
    split
    · exact ⟨returned, .inr fsm.snapshotTeardown_state⟩
    · exact ⟨returned, .inl rfl⟩
  | advertising generation =>
    dsimp only [proceed]
    split
    · exact ⟨returned, .inl rfl⟩
    · exact ⟨moves rfl rfl rfl, .inl rfl⟩
  | losing generation =>
    dsimp only [proceed]
    split
    · exact ⟨returned, .inr fsm.snapshotTeardown_state⟩
    · exact ⟨returned, .inl rfl⟩

namespace Shared

variable {shared : Shared} {thread count : Nat}

/-- An interruption ends the attempt of every handling that has accepted its OPEN. -/
theorem interrupted_behind (ordered : Ordered count shared) (room : count + 1 < 2 ^ 64) {move : Move}
    (interrupts : move.Interrupts) (free : (shared.stages move.thread).isDone = true)
    (handles : (shared.stages thread).handlesOpen = true) (settled : (shared.stages thread).isColliding = false) :
    ((shared.step move).stages thread).Behind (shared.step move).fsm.sessionGeneration := by
  obtain ⟨call, verdict, moves, stops⟩ := interrupts
  have apart : move.thread ≠ thread := by
    intro same
    rw [same, Stage.busy_of_handlesOpen handles] at free
    cases free
  have torn : (shared.step move).fsm = shared.fsm.snapshotTeardown := by
    rw [moves]
    change (shared.begin move.thread (shared.fsm.callSection verdict call)).fsm = _
    unfold begin
    rw [if_pos free, place_fsm]
    rcases stops with rfl | rfl | rfl | rfl <;> rfl
  rw [step_stages_of_ne move apart, torn]
  refine ⟨.inl handles, settled, ?_⟩
  intro attempt works
  have past := ordered.past thread attempt works
  have counted := ordered.counted
  rw [shared.fsm.snapshotTeardown_falls.generation, generation_succ (by omega)]
  omega

/-- The attempt of an interrupted handling stays over. -/
theorem step_behind (ordered : Ordered count shared) (room : count + 1 < 2 ^ 64) (move : Move)
    (same : move.thread = thread → ∃ err handled, move = .proceed thread err handled)
    (behind : (shared.stages thread).Behind shared.fsm.sessionGeneration) :
    ((shared.step move).stages thread).Behind (shared.step move).fsm.sessionGeneration := by
  have counted := ordered.counted
  have grows : shared.fsm.sessionGeneration.toNat ≤ (shared.step move).fsm.sessionGeneration.toNat := by
    rcases shared.step_effect move with waits | ⟨next, after, placed, effect⟩
    · rw [waits]
    · rw [placed, place_fsm]
      exact ((Effect.advances effect).bounds (by omega)).1
  have stage : ((shared.step move).stages thread).Behind shared.fsm.sessionGeneration := by
    by_cases own : move.thread = thread
    · obtain ⟨err, handled, rfl⟩ := same own
      change ((shared.place thread (shared.fsm.proceed err handled (shared.stages thread))).stages thread).Behind _
      rw [place_stages, Function.update_self]
      exact (Fsm.proceed_behind behind err handled).1
    · rw [step_stages_of_ne move own]
      exact behind
  refine ⟨stage.1, stage.2.1, ?_⟩
  intro attempt works
  exact (stage.2.2 attempt works).trans_le grows

/-- A handling whose attempt is over stays so. -/
theorem run_behind (moves : List Move) (ordered : Ordered count shared) (room : count + moves.length < 2 ^ 64)
    (same : ∀ move ∈ moves, move.thread = thread → ∃ err handled, move = .proceed thread err handled)
    (behind : (shared.stages thread).Behind shared.fsm.sessionGeneration) :
    ((shared.run moves).stages thread).Behind (shared.run moves).fsm.sessionGeneration := by
  induction moves generalizing count shared with
  | nil => exact behind
  | cons move moves following =>
    rw [List.length_cons] at room
    obtain ⟨first, rest⟩ := List.forall_mem_cons.mp same
    exact following (ordered.step (by omega) move) (by omega) rest (step_behind ordered (by omega) move first behind)

/-- The move leaves the session as it is, or idle. -/
def Unmoved (shared : Shared) (move : Move) : Prop :=
  (shared.step move).fsm = shared.fsm ∨ (shared.step move).fsm.state = .idle

/-- A stop, a reset or a NOTIFICATION comes while a thread handles an OPEN that it has accepted. Whatever
the threads do next, the rest of that handling leaves the session as it is, or idle. -/
theorem interrupted_open_stays (params : FsmParams) (moves : List Move) (thread : Nat)
    (handles : (((init params).run moves).stages thread).handlesOpen = true)
    (settled : (((init params).run moves).stages thread).isColliding = false)
    (interruption : Move) (interrupts : interruption.Interrupts)
    (free : (((init params).run moves).stages interruption.thread).isDone = true) (others : List Move)
    (same : ∀ move ∈ others, move.thread = thread → ∃ err handled, move = .proceed thread err handled)
    (short : moves.length + 1 + others.length < 2 ^ 64) (err : Err) (handled : Bool) :
    Unmoved ((((init params).run moves).step interruption).run others) (.proceed thread err handled) := by
  have ordered := init_run_ordered params (show moves.length < 2 ^ 64 by omega)
  generalize (init params).run moves = shared at ordered handles settled free ⊢
  have behind := interrupted_behind ordered (by omega) interrupts free handles settled
  have after := run_behind others (ordered.step (by omega) interruption) short same behind
  simp only [Unmoved, step, place_fsm]
  exact (Fsm.proceed_behind after err handled).2

section Samples

/-- An OPEN that arrives after the start; its handling publishes the COLLISION event. -/
def sampleColliding : List Move :=
  [.call 0 .start .ok, .proceed 0 .ok false, .proceed 0 .ok false,
    .call 0 (.packet (.opening (sampleOpen 65002 0x0a000002))) .ok]

/-- The handling has accepted the OPEN and is about to send its KEEPALIVE. -/
def sampleConfirming : List Move := sampleColliding ++ [.proceed 0 .ok false]

/-- A stop that comes before the KEEPALIVE is sent. -/
theorem interrupted_open_stays_sample :
    Unmoved ((((init (sampleParams 65002)).run sampleConfirming).step (.call 1 .stop .ok)).run [.proceed 0 .ok false])
      (.proceed 0 .ok false) := by
  refine interrupted_open_stays (sampleParams 65002) sampleConfirming 0 (by decide +kernel) (by decide +kernel)
    (.call 1 .stop .ok) ⟨.stop, .ok, rfl, .inl rfl⟩ (by decide +kernel) [.proceed 0 .ok false] ?_ (by decide) .ok false
  intro move member own
  exact ⟨.ok, false, List.mem_singleton.mp member⟩

/-- A stop that comes while the event is published: the handling goes on to OPEN_CONFIRM, and a
KEEPALIVE brings the stopped session up. -/
theorem stopped_open_confirms :
    let colliding := (init (sampleParams 65002)).run sampleColliding
    let stopped := colliding.step (.call 1 .stop .ok)
    let resumed := stopped.step (.proceed 0 .ok false)
    let up := resumed.run [.proceed 0 .ok false, .proceed 0 .ok false, .call 1 (.packet .keepalive) .ok]
    (colliding.stages 0).handlesOpen ∧ stopped.fsm.state = .idle ∧ (stopped.stages 1).isDone ∧
      resumed.fsm.state = .openConfirm ∧ up.fsm.state = .established := by
  decide +kernel

end Samples

end Shared

end Libbgp
