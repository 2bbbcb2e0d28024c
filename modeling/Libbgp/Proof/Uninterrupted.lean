/-
An OPEN that is handled without interruption: the pieces of the call, one after another, are the call
of the sequential model.
-/

import Libbgp.Construction.Message
import Libbgp.Proof.ThreadRuns

namespace Libbgp

/-- The pieces of a call that are left lead to this session, with no other piece between them. -/
inductive Completes : Fsm → Stage → Fsm → Prop where
  | returned (fsm : Fsm) : Completes fsm .done fsm
  | next {fsm last : Fsm} {stage : Stage} (err : Err) (handled : Bool)
      (rest : Completes (fsm.proceed err handled stage).1 (fsm.proceed err handled stage).2 last) :
      Completes fsm stage last

/-- A thread that works alone completes its call. -/
theorem Completes.run {fsm last : Fsm} {stage : Stage} (completes : Completes fsm stage last) (thread : Nat)
    {shared : Shared} (session : shared.fsm = fsm) (place : shared.stages thread = stage) :
    ∃ moves, (∀ move ∈ moves, ∃ err handled, move = Move.proceed thread err handled) ∧
      (shared.run moves).fsm = last ∧ (shared.run moves).stages thread = .done := by
  induction completes generalizing shared with
  | returned fsm => exact ⟨[], by simp, session, place⟩
  | next err handled rest following =>
    rename_i fsm last stage
    have placed : shared.step (.proceed thread err handled) = shared.place thread (fsm.proceed err handled stage) := by
      rw [← session, ← place]
      rfl
    obtain ⟨moves, own, reached⟩ := @following (shared.step (.proceed thread err handled))
      (by rw [placed, Shared.place_fsm]) (by rw [placed, Shared.place_stages, Function.update_self])
    refine ⟨.proceed thread err handled :: moves, ?_, reached⟩
    exact List.forall_mem_cons.mpr ⟨⟨err, handled, rfl⟩, own⟩

namespace Fsm

variable {fsm last : Fsm} {msg : OpenMsg} {passive : Bool} {generation : UInt64}

theorem acceptOpen_attempting (fsm : Fsm) (msg : OpenMsg) (passive : Bool) :
    (fsm.acceptOpen msg passive).attempting (fsm.acceptOpen msg passive).sessionGeneration = true :=
  (attempting_iff _ _).mpr ⟨Sys.acceptOpen_state fsm msg passive, rfl⟩

/-- A handling whose last send fails gives its attempt up. -/
theorem failed_completes (current : fsm.attempting generation = true) :
    Completes fsm (.failed generation) fsm.snapshotTeardown := by
  refine .next .ok false ?_
  simpa [proceed, rollbackFailedLocalKeepalive, current] using Completes.returned fsm.snapshotTeardown

/-- The KEEPALIVE is sent, and the one of the peer has not come yet. -/
theorem confirming_completes (current : fsm.attempting generation = true) (passive : Bool)
    (unheard : fsm.localKeepalivePending = false ∧ fsm.passiveKeepalivePending = false) :
    Completes fsm (.confirming generation passive) { fsm with localKeepaliveSendPending := false } := by
  refine .next .ok false (.next .ok false ?_)
  simpa [proceed, confirmedSection, current, unheard] using
    Completes.returned { fsm with localKeepaliveSendPending := false }

/-- The OPEN is sent before the KEEPALIVE, and two sections lie between them. -/
theorem opening_completes (current : fsm.attempting generation = true)
    (unheard : fsm.localKeepalivePending = false ∧ fsm.passiveKeepalivePending = false) :
    Completes fsm (.opening generation)
      { fsm with passiveOpenSendPending := false, localKeepaliveSendPending := false } := by
  have marked : { fsm with passiveOpenSendPending := false, localKeepaliveSendPending := true : Fsm }.attempting
      generation = true := current
  have still : { fsm with passiveOpenSendPending := false : Fsm }.attempting generation = true := current
  refine .next .ok false (.next .ok false ?_)
  simp only [proceed, if_true, current]
  refine .next .ok false ?_
  simpa [proceed, still] using confirming_completes marked true unheard

/-- An OPEN that passes the checks is accepted when no other session reports the peer. -/
theorem openSection_accepts (checked : fsm.openError msg = none)
    (accepted : Completes (fsm.acceptSection msg passive).1 (fsm.acceptSection msg passive).2 last) :
    Completes (fsm.openSection msg passive).1 (fsm.openSection msg passive).2 last := by
  unfold openSection
  rw [checked]
  dsimp only
  split
  · exact accepted
  · refine .next .ok false ?_
    simpa [proceed, collidedSection] using accepted

/-- It is refused when another session reports the peer and our identifier is the greater one. -/
theorem openSection_refuses (checked : fsm.openError msg = none) (detects : fsm.params.noCollisionDetection = false)
    (greater : routerIdLe fsm.params.config.localBgpId msg.bgpId = false) :
    Completes (fsm.openSection msg passive).1 (fsm.openSection msg passive).2 fsm.snapshotTeardown := by
  unfold openSection
  rw [checked, detects]
  refine .next .ok true ?_
  simpa [proceed, collidedSection, greater] using Completes.returned fsm.snapshotTeardown

end Fsm

namespace Sys

variable {code : MessageCode} {sys : Sys} {index : Nat} {msg : OpenMsg}

theorem abort_fsm (notify : Option (UInt8 × UInt8)) :
    (sys.abort index notify).fsm index = (sys.fsm index).snapshotTeardown := by
  cases notify with
  | none => simp [abort, snapshotTeardown]
  | some notify => simp [abort, sendNotification, send_fsm, snapshotTeardown]

/-- However an OPEN is handled, the pieces of the handling lead to the same session. -/
theorem Handled.completes {start : Sys} {passive : Bool} {result : Err × Sys}
    (handled : Handled start sys index msg passive result) :
    Completes ((sys.fsm index).openSection msg passive).1 ((sys.fsm index).openSection msg passive).2
      (result.2.fsm index) := by
  cases handled with
  | wrong err notify wrong =>
    simp only [Fsm.openSection, wrong, abort_fsm]
    exact .returned _
  | refused after checked opens session detects greater =>
    rw [session]
    exact Fsm.openSection_refuses checked detects greater
  | answered middle result checked uncontested spares opens answered =>
    have current := Fsm.acceptOpen_attempting (sys.fsm index) msg passive
    apply Fsm.openSection_accepts checked
    cases answered with
    | sent rest sends keepalive opening spent confirming answered =>
      rw [moved_fsm, spares.fsm]
      cases passive with
      | false => exact Fsm.confirming_completes current false ⟨rfl, rfl⟩
      | true => exact Fsm.opening_completes current ⟨rfl, rfl⟩
    | failed err fsm rest sends news spent confirming same plain =>
      have ended : fsm.snapshotTeardown = ((sys.fsm index).acceptOpen msg passive).snapshotTeardown := by
        rw [same, spares.fsm]
        simp only [Fsm.snapshotTeardown, Fsm.setState, Fsm.clearPeer]
        split
        · rfl
        split
        · rfl
        split <;> rfl
      have gone : ((middle.moved index fsm rest sends news).rollbackFailedLocalKeepalive index
          fsm.sessionGeneration).fsm index = fsm.snapshotTeardown := by
        rw [rollbackFailedLocalKeepalive, moved_fsm, if_pos (.inl ⟨confirming, rfl⟩)]
        simp [snapshotTeardown]
      rw [gone, ended]
      cases passive with
      | false | true => exact .next .generic false (Fsm.failed_completes current)

/-- The sections of an OPEN, run alone, do what the call does. -/
theorem onPacket_open_completes (waits : (sys.fsm index).statePreOpen = true ∨ (sys.fsm index).state = .openSent)
    (verdict : Err) :
    Completes ((sys.fsm index).callSection verdict (.packet (.opening msg))).1
      ((sys.fsm index).callSection verdict (.packet (.opening msg))).2
      ((sys.onPacket code index (.opening msg)).2.fsm index) := by
  have same : (sys.observe (.received index (.opening msg))).fsm index = sys.fsm index := rfl
  rw [← same] at waits ⊢
  simp only [Fsm.callSection, onPacket]
  generalize sys.observe (.received index (.opening msg)) = sys at waits ⊢
  rcases waits with early | opened
  · have completes := (@onPreOpenOpen_handled sys sys index code msg early).completes
    rcases Fsm.early_of_statePreOpen early with state | state | state <;>
      simpa only [Fsm.packetSection, state] using completes
  · have completes := (@onOpenSent_handled sys sys index code msg opened).completes
    simpa only [Fsm.packetSection, opened] using completes

/-- The pieces of an OPEN handling that nothing interrupts leave the session as the call of the
sequential model does. -/
theorem onPacket_open_run (waits : (sys.fsm index).statePreOpen = true ∨ (sys.fsm index).state = .openSent)
    (verdict : Err) {shared : Shared} (session : shared.fsm = sys.fsm index) {thread : Nat}
    (free : shared.stages thread = .done) :
    ∃ moves, (∀ move ∈ moves, ∃ err handled, move = Move.proceed thread err handled) ∧
      ((shared.step (.call thread (.packet (.opening msg)) verdict)).run moves).fsm =
        (sys.onPacket code index (.opening msg)).2.fsm index ∧
      ((shared.step (.call thread (.packet (.opening msg)) verdict)).run moves).stages thread = .done := by
  have placed : shared.step (.call thread (.packet (.opening msg)) verdict) =
      shared.place thread ((sys.fsm index).callSection verdict (.packet (.opening msg))) := by
    rw [← session]
    simp [Shared.step, Shared.begin, free, Stage.isDone]
  apply (onPacket_open_completes waits verdict).run thread
  · rw [placed, Shared.place_fsm]
  · rw [placed, Shared.place_stages, Function.update_self]

theorem onPacket_open_run_sample :
    let shared := Shared.init ((init [.session (sampleParams 65002)]).fsm 0).params
    ∃ moves, ((shared.step (.call 0 (.packet (.opening (sampleOpen 65002 0x0a000002))) .ok)).run moves).fsm.state =
      .openConfirm := by
  obtain ⟨moves, -, session, -⟩ := @onPacket_open_run libbgpCode (init [.session (sampleParams 65002)]) 0
    (sampleOpen 65002 0x0a000002) (.inl rfl) .ok (Shared.init _) rfl 0 rfl
  exact ⟨moves, (congrArg Fsm.state session).trans (by decide +kernel)⟩

end Sys

end Libbgp
